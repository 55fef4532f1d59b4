import ShellLisp.Evaluation.Printed
import ShellLisp.Proofs.Confinement.Actions

/-!
# Ranges

A range is a lazy sequence of numbers that it computes itself. Asked for an element, it gives the
first of those it still has and is left with the others; when it has none, it is finished.
-/

namespace ShellLisp

theorem Number.add_one (number : Number) : ∃ sum, number.add (.int 1) = .ok sum := by
  cases number with
  | int n => exact ⟨_, rfl⟩
  | float x => exact ⟨_, rfl⟩

namespace SequenceState

def isRange : SequenceState → Bool
  | .counting _ | .stepping .. => true
  | _ => false

def pull : SequenceState → Except Fault (Option (Value × SequenceState))
  | .counting next =>
      (next.add (.int 1)).map fun after => some (.number next, .counting after)
  | .stepping current stop step started =>
      LazySequence.advanceStepping current stop step started
  | _ => .ok none

/-- Whether a range has no element left: either it is at its end, or the next number is not to be
had. -/
def IsSpent (state : SequenceState) : Prop := ∀ step, state.pull ≠ .ok (some step)

/-- Elements are pulled from a range one after the other. -/
inductive Pulls : SequenceState → List Value → SequenceState → Prop
  | nil (state : SequenceState) : Pulls state [] state
  | cons {state next last : SequenceState} {element : Value} {rest : List Value}
      (pulled : state.pull = .ok (some (element, next))) (further : Pulls next rest last) :
      Pulls state (element :: rest) last

/-- A range gives elements: they are pulled from it, and it may be finished when it is spent. -/
inductive Gives : SequenceState → List Value → SequenceState → Prop
  | nil (state : SequenceState) : Gives state [] state
  | cons {state next last : SequenceState} {element : Value} {rest : List Value}
      (pulled : state.pull = .ok (some (element, next))) (further : Gives next rest last) :
      Gives state (element :: rest) last
  | finish {state : SequenceState} (spent : state.IsSpent) : Gives state [] .finished

variable {state next last : SequenceState} {element : Value} {elements rest : List Value}

theorem finished_isSpent : IsSpent .finished := fun _ pulled => by cases pulled

theorem pull_stepping (current stop step : Number) (started : Bool) :
    pull (.stepping current stop step started) =
      (if started then current.add step else .ok current).map fun number =>
        if LazySequence.isBefore number stop step
          then some (.number number, .stepping number stop step true) else none := by
  have chosen (number : Number) :
      (if LazySequence.isBefore number stop step then
          pure (some (.number number, .stepping number stop step true)) else pure none :
        Except Fault (Option (Value × SequenceState))) =
      .ok (if LazySequence.isBefore number stop step
        then some (.number number, .stepping number stop step true) else none) := by
    split <;> rfl
  cases started with
  | false => exact chosen current
  | true =>
      show (current.add step >>= fun number => _) = _
      cases current.add step with
      | error fault => rfl
      | ok number => exact chosen number

theorem isRange_of_pull (pulled : state.pull = .ok (some (element, next))) :
    state.isRange = true ∧ next.isRange = true := by
  cases state with
  | counting number =>
      rw [pull] at pulled
      cases sum : number.add (.int 1) with
      | error fault => rw [sum] at pulled; cases pulled
      | ok after =>
          rw [sum] at pulled
          cases pulled
          exact ⟨rfl, rfl⟩
  | stepping current stop step started =>
      rw [pull_stepping] at pulled
      cases sum : (if started then current.add step else .ok current) with
      | error fault => rw [sum] at pulled; cases pulled
      | ok number =>
          rw [sum] at pulled
          have given := Except.ok.inj pulled
          dsimp only at given
          split at given
          · cases given
            exact ⟨rfl, rfl⟩
          · cases given
  | mapped | filtered | flattened | skipping | finished => cases pulled

theorem Pulls.gives (pulls : Pulls state elements last) : Gives state elements last := by
  induction pulls with
  | nil state => exact .nil state
  | cons pulled _ ih => exact .cons pulled ih

theorem Gives.trans {others : List Value} (first : Gives state elements next)
    (second : Gives next others last) : Gives state (elements ++ others) last := by
  induction first with
  | nil => exact second
  | cons pulled _ ih => exact .cons pulled (ih second)
  | finish spent =>
      cases second with
      | nil => exact .finish spent
      | cons pulled => exact absurd pulled (finished_isSpent _)
      | finish => exact .finish spent

theorem Gives.isRange (gives : Gives state elements last)
    (isRange : state.isRange = true ∨ state = .finished) :
    last.isRange = true ∨ last = .finished := by
  induction gives with
  | nil => exact isRange
  | cons pulled _ ih => exact ih (.inl (isRange_of_pull pulled).2)
  | finish => exact .inr rfl

theorem gives_of_numbersLeft? {bound : Nat} {state : SequenceState} {numbers : List Value}
    (left : numbersLeft? bound state = some numbers) : Gives state numbers .finished := by
  induction bound, state using numbersLeft?.induct generalizing numbers with
  | case1 bound current stop step started number after advanced ih =>
      simp only [numbersLeft?, advanced] at left
      obtain ⟨rest, further, rfl⟩ := Option.map_eq_some_iff.mp left
      exact .cons advanced (ih further)
  | case2 bound current stop step started advanced =>
      simp only [numbersLeft?, advanced] at left
      cases left
      refine .finish fun step given => ?_
      rw [pull, advanced] at given
      cases given
  | case3 bound current stop step started fault advanced =>
      simp only [numbersLeft?, advanced] at left
      cases left
  | case4 =>
      rw [numbersLeft?] at left
      cases left
      exact .nil _
  | case5 bound state unfinished others =>
      rw [numbersLeft?] at left
      · cases left
      · exact unfinished
      · exact others

theorem Pulls.split {others : List Value} (pulls : Pulls state (elements ++ others) last) :
    ∃ between, Pulls state elements between ∧ Pulls between others last := by
  induction elements generalizing state with
  | nil => exact ⟨state, .nil state, pulls⟩
  | cons element rest ih =>
      cases pulls with
      | cons pulled further =>
          obtain ⟨between, first, second⟩ := ih further
          exact ⟨between, .cons pulled first, second⟩

theorem exists_pulls (state : SequenceState) (count : Nat) : ∃ elements last,
    Pulls state elements last ∧
      (elements.length = count ∨ elements.length < count ∧ last.IsSpent) := by
  induction count generalizing state with
  | zero => exact ⟨[], state, .nil state, .inl rfl⟩
  | succ count ih =>
      by_cases spent : state.IsSpent
      · exact ⟨[], state, .nil state, .inr ⟨Nat.succ_pos count, spent⟩⟩
      · obtain ⟨⟨element, next⟩, pulled⟩ : ∃ step, state.pull = .ok (some step) := by
          simpa [IsSpent] using spent
        obtain ⟨elements, last, pulls, whole | ⟨short, spent⟩⟩ := ih next
        · exact ⟨element :: elements, last, .cons pulled pulls, .inl (by simp [whole])⟩
        · exact ⟨element :: elements, last, .cons pulled pulls, .inr ⟨by simpa using short, spent⟩⟩

end SequenceState

/-! ## Integers -/

theorem Number.less_int (n m : Int) : (Number.int n).less (.int m) = decide (n < m) := by
  show (some (Binary64.orderInt n m) == some .lt) = decide (n < m)
  unfold Binary64.orderInt
  split
  · rename_i small
    simp [small]
  · rename_i large
    split <;> simp [large]

theorem LazySequence.isBefore_int (n stop step : Int) :
    isBefore (.int n) (.int stop) (.int step) =
      if 0 < step then decide (n < stop) else decide (stop < n) := by
  unfold isBefore Number.isPositive
  simp only [Number.less_int, decide_eq_true_eq]

/-- The integers from one on, up or down to another that is left out. -/
def numbersBetween (start stop step : Int) : List Int :=
  if 0 < step ∧ start < stop ∨ step < 0 ∧ stop < start then
    start :: numbersBetween (start + step) stop step
  else []
termination_by (if 0 < step then stop - start else start - stop).toNat
decreasing_by split <;> omega

namespace SequenceState

theorem pull_integers {step : Int} (nonzero : step ≠ 0) (stop current : Int) {started : Bool}
    {n : Int} (next : (if started then current + step else current) = n) :
    pull (.stepping (.int current) (.int stop) (.int step) started) =
      .ok (if 0 < step ∧ n < stop ∨ step < 0 ∧ stop < n then
        some (.int n, .stepping (.int n) (.int stop) (.int step) true) else none) := by
  have number : (if started then (Number.int current).add (.int step) else .ok (.int current)) =
      .ok (.int n) := by
    subst next
    cases started <;> rfl
  have before : LazySequence.isBefore (.int n) (.int stop) (.int step) =
      decide (0 < step ∧ n < stop ∨ step < 0 ∧ stop < n) := by
    rw [LazySequence.isBefore_int]
    split
    · rename_i up
      simp [up, Int.not_lt.mpr (Int.le_of_lt up)]
    · rename_i down
      have negative : step < 0 := by omega
      simp [down, negative]
  rw [pull_stepping, number]
  simp only [Except.map, before, decide_eq_true_eq]
  rfl

theorem pulls_numbersBetween {step : Int} (nonzero : step ≠ 0) (stop current : Int)
    {started : Bool} {n : Int} (next : (if started then current + step else current) = n) :
    ∃ last, Pulls (.stepping (.int current) (.int stop) (.int step) started)
        ((numbersBetween n stop step).map Value.int) last ∧ last.pull = .ok none := by
  have pulled := pull_integers nonzero stop current next
  induction n using numbersBetween.induct stop step generalizing current started with
  | case1 n inside ih =>
      rw [if_pos inside] at pulled
      obtain ⟨last, pulls, ended⟩ := @ih n true rfl (pull_integers nonzero stop n rfl)
      rw [numbersBetween, if_pos inside]
      exact ⟨last, .cons pulled pulls, ended⟩
  | case2 n outside =>
      rw [if_neg outside] at pulled
      rw [numbersBetween, if_neg outside]
      exact ⟨_, .nil _, pulled⟩

theorem pulls_counting (start : Int) (count : Nat) :
    Pulls (.counting (.int start)) (((List.range count).map fun i : Nat => start + i).map Value.int)
      (.counting (.int (start + count))) := by
  induction count generalizing start with
  | zero => simpa using Pulls.nil (.counting (.int start))
  | succ count ih =>
      have shifted : (List.range (count + 1)).map (fun i : Nat => start + i) =
          start :: (List.range count).map fun i : Nat => start + 1 + i := by
        have later : (List.range count).map ((fun i : Nat => start + i) ∘ Nat.succ) =
            (List.range count).map fun i : Nat => start + 1 + i :=
          List.map_congr_left fun i _ => by simp only [Function.comp_apply]; omega
        rw [List.range_succ_eq_map, List.map_cons, List.map_map, later]
        exact congrArg (· :: _) (Int.add_zero start)
      have last : start + ((count + 1 : Nat) : Int) = start + 1 + count := by omega
      rw [shifted, last]
      exact .cons rfl (ih (start + 1))

end SequenceState

/-! ## Cells of ranges -/

/-- A range that can be asked for an element, or that is finished. -/
structure LazySequence.IsRange (sequence : LazySequence) : Prop where
  state : sequence.state.isRange = true ∨ sequence.state = .finished
  still : sequence.running = false

/-- What may become of a range: it gives some elements, and may be labelled anew. -/
def LazySequence.Steps (before after : LazySequence) : Prop :=
  after.running = before.running ∧ ∃ elements, before.state.Gives elements after.state

namespace LazySequence.Steps
variable {before between after : LazySequence}

theorem refl (sequence : LazySequence) : sequence.Steps sequence := ⟨rfl, [], .nil _⟩

theorem trans (first : before.Steps between) (second : between.Steps after) :
    before.Steps after := by
  obtain ⟨running, elements, gives⟩ := first
  obtain ⟨running', others, further⟩ := second
  exact ⟨running'.trans running, elements ++ others, gives.trans further⟩

theorem isRange (steps : before.Steps after) (isRange : before.IsRange) : after.IsRange := by
  obtain ⟨running, elements, gives⟩ := steps
  exact ⟨gives.isRange isRange.state, running.trans isRange.still⟩

end LazySequence.Steps

/-! ## Changes of one sequence -/

namespace Store
variable {store : Store} {ref : Nat} {first second : LazySequence → LazySequence}

theorem modifySequence_congr
    (same : ∀ sequence, store.sequences[ref]? = some sequence → first sequence = second sequence) :
    store.modifySequence ref first = store.modifySequence ref second := by
  have rows : store.sequences.modify ref first = store.sequences.modify ref second := by
    refine Array.ext_getElem? fun other => ?_
    rw [Array.getElem?_modify, Array.getElem?_modify]
    split
    · rename_i here
      subst here
      cases there : store.sequences[ref]? with
      | none => rfl
      | some sequence => exact congrArg some (same sequence there)
    · rfl
  rw [modifySequence, rows]
  rfl

theorem modifySequence_modifySequence :
    (store.modifySequence ref first).modifySequence ref second =
      store.modifySequence ref (second ∘ first) := by
  have rows : (store.sequences.modify ref first).modify ref second =
      store.sequences.modify ref (second ∘ first) := by
    refine Array.ext_getElem? fun other => ?_
    simp only [Array.getElem?_modify]
    split <;> simp
  show { store with sequences := (store.sequences.modify ref first).modify ref second } = _
  rw [rows]
  rfl

theorem modifySequence_id : store.modifySequence ref id = store := by
  have rows : store.sequences.modify ref id = store.sequences := by
    refine Array.ext_getElem? fun other => ?_
    simp [Array.getElem?_modify]
  rw [modifySequence, rows]

def withState (store : Store) (ref : Nat) (state : SequenceState) : Store :=
  store.modifySequence ref fun sequence => { sequence with state }

theorem sequence_withState {sequence : LazySequence} {state : SequenceState}
    (there : store.sequences[ref]? = some sequence) :
    (store.withState ref state).sequences[ref]? = some { sequence with state } := by
  simp [withState, modifySequence, Array.getElem?_modify, there]

theorem withState_withState {former state : SequenceState} :
    (store.withState ref former).withState ref state = store.withState ref state :=
  modifySequence_modifySequence

theorem withState_self {sequence : LazySequence}
    (there : store.sequences[ref]? = some sequence) :
    store.withState ref sequence.state = store := by
  refine (modifySequence_congr fun found same => ?_).trans modifySequence_id
  rw [there] at same
  cases same
  rfl

end Store

/-! ## Printed sequences -/

/-- Printing a value uses a sequence up: the value is a function that has it for its parameters, and it
gives some numbers and then ends. -/
structure Store.UsesUp (store : Store) (value : Value) (ref : Nat) (sequence : LazySequence) :
    Prop where
  takes : ∃ function closure, value = .closure function ∧
    store.closures[function]? = some closure ∧ closure.parameters = .sequence ref
  there : store.sequences[ref]? = some sequence
  still : sequence.running = false
  gives : ∃ numbers, sequence.state.Gives numbers .finished

theorem Store.exists_usesUp {store : Store} {value : Value} {ref : Nat}
    {text : Except Failure String} (used : store.usedUp? value = some (ref, text)) :
    ∃ sequence, store.UsesUp value ref sequence := by
  cases value with
  | closure function =>
      obtain ⟨closure, there, found⟩ := Option.bind_eq_some_iff.mp used
      obtain ⟨⟨source, names⟩, printed, same⟩ := Option.bind_eq_some_iff.mp found
      cases same
      unfold printedParameters? at printed
      split at printed
      · rename_i source parameters
        obtain ⟨sequence, held, printed⟩ := Option.bind_eq_some_iff.mp printed
        split at printed
        · cases printed
        · rename_i still
          obtain ⟨numbers, left, printed⟩ := Option.bind_eq_some_iff.mp printed
          obtain ⟨names, -, same⟩ := Option.bind_eq_some_iff.mp printed
          cases same
          exact ⟨sequence, ⟨function, closure, rfl, there, parameters⟩, held, by simpa using still,
            numbers, SequenceState.gives_of_numbersLeft? left⟩
      · cases printed
  | _ => cases used

def Session.withState (session : Session) (ref : Nat) (state : SequenceState) : Session :=
  { session with store := session.store.withState ref state }

theorem Eval.runOn_print_none {value : Value} {session : Session}
    (keeps : session.store.usedUp? value = none) :
    (Eval.print value).runOn session = (session.store.text false value, session) := by
  unfold Eval.print
  rw [Eval.runOn_get_bind, keeps]
  exact Eval.runOn_read _ session

theorem Eval.runOn_print_some {value : Value} {session : Session} {ref : Nat}
    {text : Except Failure String} (used : session.store.usedUp? value = some (ref, text)) :
    (Eval.print value).runOn session = (text, session.withState ref .finished) := by
  unfold Eval.print
  rw [Eval.runOn_get_bind, used]
  exact Eval.runOn_read (fun _ => text) (session.withState ref .finished)

/-! ## Asking a range for an element -/

namespace LazySequence
variable {session : Session} {ref : Nat} {sequence : LazySequence} {element : Value}
  {next : SequenceState}

theorem runOn_stateOf_bind {α : Type} (there : session.store.sequences[ref]? = some sequence)
    (then_ : SequenceState → Eval α) :
    (stateOf ref >>= then_).runOn session = (then_ sequence.state).runOn session := by
  show (then_ ((session.store.sequences[ref]?.map (·.state)).getD .finished)).runOn session = _
  rw [there]
  rfl

theorem runOn_isRunning_bind {α : Type} (there : session.store.sequences[ref]? = some sequence)
    (then_ : Bool → Eval α) :
    (isRunning ref >>= then_).runOn session = (then_ sequence.running).runOn session := by
  show (then_ ((session.store.sequences[ref]?.map (·.running)).getD false)).runOn session = _
  rw [there]
  rfl

/-- Setting the mark of a sequence that computes and taking it away again leaves the state to set. -/
theorem withState_marked (there : session.store.sequences[ref]? = some sequence)
    (still : sequence.running = false) (state : SequenceState) :
    ((session.store.modifySequence ref fun former => { former with running := true }).modifySequence
        ref fun former => { former with running := false }).withState ref state =
      session.store.withState ref state := by
  rw [Store.withState, Store.modifySequence_modifySequence, Store.modifySequence_modifySequence]
  refine Store.modifySequence_congr fun found same => ?_
  rw [there] at same
  cases same
  simp [still]

theorem withState_failed (there : session.store.sequences[ref]? = some sequence)
    (still : sequence.running = false) :
    ((session.store.modifySequence ref fun former => { former with running := true }).withState ref
        .finished).modifySequence ref (fun former => { former with running := false }) =
      session.store.withState ref .finished := by
  rw [Store.withState, Store.modifySequence_modifySequence, Store.modifySequence_modifySequence]
  refine Store.modifySequence_congr fun found same => ?_
  rw [there] at same
  cases same
  simp [still]

/-- A stepping sequence gives what is pulled from it, and is finished behind the last element. -/
theorem runOn_advanceComputed_stepping (engine : Engine)
    (there : session.store.sequences[ref]? = some sequence) (still : sequence.running = false)
    {current stop step : Number} {started : Bool} :
    (advanceComputed engine ref (.stepping current stop step started)).runOn session =
      match (SequenceState.stepping current stop step started).pull with
      | .ok (some (element, next)) => (.ok (some element), session.withState ref next)
      | .ok none => (.ok none, session.withState ref .finished)
      | .error fault => (.error (.fault fault), session.withState ref .finished) := by
  have computed : compute engine (.stepping current stop step started) =
      Eval.lift (SequenceState.stepping current stop step started).pull := rfl
  unfold advanceComputed
  rw [runOn_isRunning_bind there, still, computed]
  -- What was marked while the step was computed has no mark behind it, whatever came of it.
  match (SequenceState.stepping current stop step started).pull with
  | .ok (some (element, next)) =>
      exact congrArg (fun store => (Except.ok (some element), { session with store := store }))
        (withState_marked there still next)
  | .ok none =>
      exact congrArg (fun store => (Except.ok none, { session with store := store }))
        (withState_marked there still .finished)
  | .error fault =>
      exact congrArg
        (fun store => (Except.error (Failure.fault fault), { session with store := store }))
        (withState_failed there still)

theorem runOn_advance_some (engine : Engine)
    (there : session.store.sequences[ref]? = some sequence) (still : sequence.running = false)
    (pulled : sequence.state.pull = .ok (some (element, next))) :
    (advance engine ref).runOn session = (.ok (some element), session.withState ref next) := by
  unfold advance
  rw [runOn_stateOf_bind there]
  cases is : sequence.state with
  | counting number =>
      rw [is, SequenceState.pull] at pulled
      dsimp only
      cases sum : number.add (.int 1) with
      | error fault => rw [sum] at pulled; cases pulled
      | ok after =>
          rw [sum] at pulled
          cases pulled
          rfl
  | stepping current stop step started =>
      rw [is] at pulled
      show (advanceComputed engine ref (.stepping current stop step started)).runOn session = _
      rw [runOn_advanceComputed_stepping engine there still, pulled]
  | mapped | filtered | flattened | skipping | finished => rw [is] at pulled; cases pulled

theorem runOn_advance_none (engine : Engine)
    (there : session.store.sequences[ref]? = some sequence) (isRange : sequence.IsRange)
    (ended : sequence.state.pull = .ok none) :
    (advance engine ref).runOn session = (.ok none, session.withState ref .finished) := by
  unfold advance
  rw [runOn_stateOf_bind there]
  cases is : sequence.state with
  | counting number =>
      rw [is, SequenceState.pull] at ended
      cases sum : number.add (.int 1) <;> rw [sum] at ended <;> cases ended
  | stepping current stop step started =>
      rw [is] at ended
      show (advanceComputed engine ref (.stepping current stop step started)).runOn session = _
      rw [runOn_advanceComputed_stepping engine there isRange.still, ended]
  | finished =>
      exact congrArg (fun store => (Except.ok none, { session with store := store }))
        (is ▸ (Store.withState_self there).symm)
  | mapped | filtered | flattened | skipping =>
      have apart := isRange.state
      simp [is, SequenceState.isRange] at apart

theorem runOn_advance_error (engine : Engine) {fault : Fault}
    (there : session.store.sequences[ref]? = some sequence) (still : sequence.running = false)
    (failed : sequence.state.pull = .error fault) :
    (advance engine ref).runOn session =
      (.error (.fault fault), session.withState ref .finished) := by
  unfold advance
  rw [runOn_stateOf_bind there]
  cases is : sequence.state with
  | counting number =>
      obtain ⟨after, sum⟩ := number.add_one
      rw [is, SequenceState.pull, sum] at failed
      cases failed
  | stepping current stop step started =>
      rw [is] at failed
      show (advanceComputed engine ref (.stepping current stop step started)).runOn session = _
      rw [runOn_advanceComputed_stepping engine there still, failed]
  | mapped | filtered | flattened | skipping | finished => rw [is] at failed; cases failed

end LazySequence

end ShellLisp
