import ShellLisp.Evaluation.Followed
import ShellLisp.Proofs.Changes.Evaluation

/-!
# Ranges are gone through once

All the views of a range pull from the range itself. So whatever is done in a session, the elements
of a range are pulled in their order and each of them once; a view pulls nothing when it is made, and
taking some elements pulls these and no more. More elements than the host counts cannot be asked for.
A range is also finished when a view that stands within it is dropped, so nothing is said of what leaves
such views behind.
-/

namespace ShellLisp
open Session

/-! ## Operations -/

inductive Operation
  | evaluate (source : String) (scope : Nat)
  | interpret (e : Expr) (scope : Nat)
  | apply (callee : Value) (arguments : List Value) (place : Location)

def Operation.run (engine : Engine) : Operation → Eval Value
  | .evaluate source scope => engine.evaluate source scope
  | .interpret e scope => engine.interpret e scope
  | .apply callee arguments place => engine.apply callee arguments place

/-- A session after operations in a row, whether they come off or not. -/
def Session.perform (engine : Engine) (session : Session) (operations : List Operation) : Session :=
  operations.foldl (fun session operation => ((operation.run engine).runOn session).2) session

/-- Whether none of some operations in a row asks for anything that is not followed. -/
def Session.FollowsAll (engine : Engine) : Session → List Operation → Prop
  | _, [] => True
  | session, operation :: rest =>
      let ended := (operation.run engine).runOn session
      isFollowed ended.1 = true ∧ FollowsAll engine ended.2 rest

def Guarded.ranges (range : Nat → Prop) : Guarded := { Reserved.nothing with range }

theorem Engine.ofDepth_makes (range : Nat → Prop) (patience depth : Nat) :
    (ofDepth patience depth).MakesChanges (.ranges range) := by
  rw [← sparingOfDepth_nothing]
  exact sparingOfDepth_makes (.ranges range) patience depth

theorem Session.perform_changes {reserved : Guarded} {engine : Engine} {session : Session}
    (makes : engine.MakesChanges reserved) (ready : session.Ready reserved)
    (operations : List Operation) : Changes reserved session (session.perform engine operations) := by
  induction operations generalizing session with
  | nil => exact .refl
  | cons operation rest ih =>
      have changes : Changes reserved session ((operation.run engine).runOn session).2 := by
        cases operation with
        | evaluate source scope => exact (makes.evaluate source scope).changes ready
        | interpret e scope => exact (makes.interpret e scope).changes ready
        | apply callee arguments place =>
            exact (makes.apply callee arguments place).changes ready
      exact changes.trans (ih (ready.changes changes).1)

/-! ## Going through a range -/

namespace Engine
variable {lower : Engine} {session : Session} {ref : Nat} {sequence : LazySequence}
  {elements : List Value} {state last next : SequenceState} {element : Value}

theorem runOn_next_some (there : session.store.sequences[ref]? = some sequence)
    (still : sequence.running = false)
    (pulled : sequence.state.pull = .ok (some (element, next))) :
    (lower.deeper.next (.sequence ref)).runOn session =
      (.ok (some (element, .sequence ref)), session.withState ref next) :=
  Eval.runOn_bind_ok (LazySequence.runOn_advance_some lower there still pulled) _

theorem runOn_next_none (there : session.store.sequences[ref]? = some sequence)
    (isRange : sequence.IsRange) (ended : sequence.state.pull = .ok none) :
    (lower.deeper.next (.sequence ref)).runOn session =
      (.ok none, session.withState ref .finished) :=
  Eval.runOn_bind_ok (LazySequence.runOn_advance_none lower there isRange ended) _

theorem runOn_next_error {fault : Fault} (there : session.store.sequences[ref]? = some sequence)
    (still : sequence.running = false) (failed : sequence.state.pull = .error fault) :
    (lower.deeper.next (.sequence ref)).runOn session =
      (.error (.fault fault), session.withState ref .finished) :=
  Eval.runOn_bind_error (LazySequence.runOn_advance_error lower there still failed) _

theorem withState_withState (session : Session) (ref : Nat) (state next : SequenceState) :
    (session.withState ref state).withState ref next = session.withState ref next :=
  congrArg (fun store => { session with store := store }) Store.withState_withState

theorem withState_self (there : session.store.sequences[ref]? = some sequence) :
    session.withState ref sequence.state = session :=
  congrArg (fun store => { session with store := store }) (Store.withState_self there)

theorem sequence_withState (there : session.store.sequences[ref]? = some sequence)
    (state : SequenceState) :
    (session.withState ref state).store.sequences[ref]? = some { sequence with state } :=
  Store.sequence_withState there

theorem runOn_takeElements (lower : Engine)
    (there : session.store.sequences[ref]? = some sequence)
    (still : sequence.running = false) (pulls : sequence.state.Pulls elements last) (more : Nat)
    (found : Array Value) :
    (lower.deeper.takeElements (elements.length + more) (.sequence ref) found).runOn session =
      (lower.deeper.takeElements more (.sequence ref) (found ++ elements)).runOn
        (session.withState ref last) := by
  generalize is : sequence.state = state at pulls
  induction pulls generalizing session sequence found with
  | nil state =>
      subst is
      simp [withState_self there]
  | @cons state next last element rest pulled further ih =>
      subst is
      have step : (lower.deeper.takeElements (rest.length + more + 1) (.sequence ref) found).runOn
          session = (lower.deeper.takeElements (rest.length + more) (.sequence ref)
            (found.push element)).runOn (session.withState ref next) :=
        Eval.runOn_bind_ok (runOn_next_some there still pulled) _
      rw [List.length_cons, Nat.add_right_comm, step, ih (sequence_withState there next) still _ rfl,
        withState_withState]
      simp

theorem runOn_takeElements_none (there : session.store.sequences[ref]? = some sequence)
    (isRange : sequence.IsRange) (ended : sequence.state.pull = .ok none) (more : Nat)
    (found : Array Value) :
    (lower.deeper.takeElements (more + 1) (.sequence ref) found).runOn session =
      (.ok found, session.withState ref .finished) :=
  Eval.runOn_bind_ok (runOn_next_none there isRange ended) _

theorem runOn_takeElements_error {fault : Fault}
    (there : session.store.sequences[ref]? = some sequence) (still : sequence.running = false)
    (failed : sequence.state.pull = .error fault) (more : Nat) (found : Array Value) :
    (lower.deeper.takeElements (more + 1) (.sequence ref) found).runOn session =
      (.error (.fault fault), session.withState ref .finished) :=
  Eval.runOn_bind_error (runOn_next_error there still failed) _

theorem runOn_foldWithin_push (there : session.store.sequences[ref]? = some sequence)
    (still : sequence.running = false) (pulls : sequence.state.Pulls elements last) (more : Nat)
    (found : Array Value) :
    (lower.deeper.foldWithin (fun found element => return found.push element)
        (elements.length + more) (.sequence ref) found).runOn session =
      (lower.deeper.foldWithin (fun found element => return found.push element) more
        (.sequence ref) (found ++ elements)).runOn (session.withState ref last) := by
  generalize is : sequence.state = state at pulls
  induction pulls generalizing session sequence found with
  | nil state =>
      subst is
      simp [withState_self there]
  | @cons state next last element rest pulled further ih =>
      subst is
      have step : (lower.deeper.foldWithin (fun found element => return found.push element)
          (rest.length + more + 1) (.sequence ref) found).runOn session =
          (lower.deeper.foldWithin (fun found element => return found.push element)
            (rest.length + more) (.sequence ref) (found.push element)).runOn
              (session.withState ref next) :=
        Eval.runOn_bind_ok (runOn_next_some there still pulled) _
      rw [List.length_cons, Nat.add_right_comm, step, ih (sequence_withState there next) still _ rfl,
        withState_withState]
      simp

theorem runOn_collect (there : session.store.sequences[ref]? = some sequence)
    (isRange : sequence.IsRange) (pulls : sequence.state.Pulls elements last)
    (ended : last.pull = .ok none) (patient : elements.length < lower.patience) :
    (lower.deeper.collect (.sequence ref)).runOn session =
      (.ok elements.toArray, session.withState ref .finished) := by
  have whole : lower.deeper.patience = elements.length + (lower.patience - elements.length - 1 + 1) := by
    show lower.patience = _
    omega
  have behind : LazySequence.IsRange { sequence with state := last } :=
    ⟨pulls.gives.isRange isRange.state, isRange.still⟩
  unfold collect foldElements
  rw [whole, runOn_foldWithin_push there isRange.still pulls]
  refine (Eval.runOn_bind_ok (runOn_next_none (sequence_withState there last) behind ended) _).trans ?_
  rw [withState_withState]
  simp
  rfl

end Engine

/-! ## Functions on ranges -/

namespace Sequences
variable {lower : Engine} {session : Session} {ref : Nat} {sequence : LazySequence}
  {elements : List Value} {last : SequenceState} {place : Location}

theorem runOn_take {size : Number} {count : Int} (counted : size.truncate = .ok count)
    (few : count.toNat ≤ countLimit) (engine : Engine) (place : Location) (ref : Nat)
    (session : Session) :
    (take engine place [.sequence ref, .number size]).runOn session = Eval.runOn session (do
      Eval.newArray (← engine.takeElements count.toNat (.sequence ref) #[])) := by
  have given : (withCount "take" place [.sequence ref, .number size]).runOn session =
      (.ok (.sequence ref, count.toNat), session) := by
    show Eval.runOn session (do
      let truncated ← Eval.lift size.truncate
      return (Value.sequence ref, truncated.toNat)) = _
    rw [counted]
    rfl
  unfold take
  rw [Eval.runOn_bind_ok given]
  dsimp only
  rw [if_neg (Nat.not_lt.mpr few)]
  rfl

theorem runOn_take_range (there : session.store.sequences[ref]? = some sequence)
    (isRange : sequence.IsRange) {size : Number} {count : Int}
    (counted : size.truncate = .ok count) (few : count.toNat ≤ countLimit) (lower : Engine)
    (place : Location) :
    ∃ elements last, sequence.state.Pulls elements last ∧
      (elements.length = count.toNat ∧
          (take lower.deeper place [.sequence ref, .number size]).runOn session =
            (Eval.newArray elements.toArray).runOn (session.withState ref last) ∨
        elements.length < count.toNat ∧ last.pull = .ok none ∧
          (take lower.deeper place [.sequence ref, .number size]).runOn session =
            (Eval.newArray elements.toArray).runOn (session.withState ref .finished) ∨
        elements.length < count.toNat ∧ ∃ fault, last.pull = .error fault ∧
          (take lower.deeper place [.sequence ref, .number size]).runOn session =
            (.error (.fault fault), session.withState ref .finished)) := by
  obtain ⟨elements, last, pulls, many⟩ := sequence.state.exists_pulls count.toNat
  have clean : (#[] : Array Value) ++ elements = elements.toArray := by simp
  refine ⟨elements, last, pulls, ?_⟩
  rw [runOn_take counted few]
  -- The range has as many elements as asked for, or it was pulled to its end or to a fault.
  rcases many with whole | ⟨short, spent⟩
  · refine .inl ⟨whole, ?_⟩
    have taken := Engine.runOn_takeElements lower there isRange.still pulls 0 #[]
    rw [Nat.add_zero, whole, clean] at taken
    exact Eval.runOn_bind_ok taken _
  · have behind : LazySequence.IsRange { sequence with state := last } :=
      ⟨pulls.gives.isRange isRange.state, isRange.still⟩
    have there' := Engine.sequence_withState there last
    obtain ⟨more, asked⟩ : ∃ more, count.toNat = elements.length + (more + 1) :=
      ⟨count.toNat - elements.length - 1, by omega⟩
    have taken := Engine.runOn_takeElements lower there isRange.still pulls (more + 1) #[]
    rw [← asked, clean] at taken
    cases pulled : last.pull with
    | error fault =>
        rw [Engine.runOn_takeElements_error there' isRange.still pulled,
          Engine.withState_withState] at taken
        exact .inr (.inr ⟨short, fault, rfl, Eval.runOn_bind_error taken _⟩)
    | ok step =>
        cases step with
        | some step => exact absurd pulled (spent step)
        | none =>
            rw [Engine.runOn_takeElements_none there' behind pulled,
              Engine.withState_withState] at taken
            exact .inr (.inl ⟨short, rfl, Eval.runOn_bind_ok taken _⟩)

theorem runOn_newArray_made (session : Session) (items : Array Value) :
    ∃ made after, (Eval.newArray items).runOn session = (.ok (.array made), after) ∧
      after.store.array made = items ∧ after.store.sequences = session.store.sequences :=
  ⟨session.store.arrays.size, _, rfl, Store.array_newArray session.store items, rfl⟩

theorem runOn_take_toArray (there : session.store.sequences[ref]? = some sequence)
    (isRange : sequence.IsRange) (pulls : sequence.state.Pulls elements last)
    (ended : last.pull = .ok none) {size : Number} {count : Int}
    (counted : size.truncate = .ok count) (few : count.toNat ≤ countLimit)
    (patient : elements.length < lower.patience) (place : Location) :
    ∃ first between second after,
      (call lower.deeper place [.sequence ref, .number size] .take).runOn session =
          (.ok (.array first), between) ∧
        between.store.array first = (elements.take count.toNat).toArray ∧
        (call lower.deeper place [.sequence ref] .toArray).runOn between =
          (.ok (.array second), after) ∧
        after.store.array second = (elements.drop count.toNat).toArray := by
  have clean (elements : List Value) : (#[] : Array Value) ++ elements = elements.toArray := by simp
  -- What is taken, and what is left for the rest.
  obtain ⟨state, left, taken, isRange', further, ended'⟩ : ∃ state left,
      (lower.deeper.takeElements count.toNat (.sequence ref) #[]).runOn session =
          (.ok (elements.take count.toNat).toArray, session.withState ref state) ∧
        (state.isRange = true ∨ state = .finished) ∧
        state.Pulls (elements.drop count.toNat) left ∧ left.pull = .ok none := by
    by_cases enough : count.toNat ≤ elements.length
    · obtain ⟨between, first, second⟩ :=
        SequenceState.Pulls.split (by rwa [List.take_append_drop count.toNat elements])
      have taken := Engine.runOn_takeElements lower there isRange.still first 0 #[]
      rw [Nat.add_zero, List.length_take, Nat.min_eq_left enough, clean] at taken
      exact ⟨between, last, taken, first.gives.isRange isRange.state, second, ended⟩
    · obtain ⟨more, asked⟩ : ∃ more, count.toNat = elements.length + (more + 1) :=
        ⟨count.toNat - elements.length - 1, by omega⟩
      have behind : LazySequence.IsRange { sequence with state := last } :=
        ⟨pulls.gives.isRange isRange.state, isRange.still⟩
      have taken := Engine.runOn_takeElements lower there isRange.still pulls (more + 1) #[]
      rw [← asked, clean, Engine.runOn_takeElements_none (Engine.sequence_withState there last)
        behind ended, Engine.withState_withState] at taken
      rw [List.take_of_length_le (by omega), List.drop_of_length_le (by omega)]
      exact ⟨.finished, .finished, taken, .inr rfl, .nil _, rfl⟩
  obtain ⟨first, between, made, holds, same⟩ :=
    runOn_newArray_made (session.withState ref state) (elements.take count.toNat).toArray
  have there' : between.store.sequences[ref]? = some { sequence with state } := by
    rw [same]
    exact Engine.sequence_withState there state
  have patient' : (elements.drop count.toNat).length < lower.patience :=
    Nat.lt_of_le_of_lt (by simp) patient
  have collected := Engine.runOn_collect there' ⟨isRange', isRange.still⟩ further ended' patient'
  obtain ⟨second, after, made', holds', -⟩ :=
    runOn_newArray_made (between.withState ref .finished) (elements.drop count.toNat).toArray
  refine ⟨first, between, second, after, ?_, holds, ?_, holds'⟩
  · exact (runOn_take counted few lower.deeper place ref session).trans
      ((Eval.runOn_bind_ok taken _).trans made)
  · exact (Eval.runOn_bind_ok collected _).trans made'

/-! ## Views -/

/-- The functions that make views of a lazy sequence. -/
def views : List ArrayFunction := [.map, .filter, .flatMap, .drop, .tail]

theorem runOn_withFunction (callee : String) (place : Location) (ref : Nat) (rest : List Value)
    (session : Session) :
    (∃ failure, (withFunction callee place (.sequence ref :: rest)).runOn session =
        (.error failure, session)) ∨
      ∃ callback, (withFunction callee place (.sequence ref :: rest)).runOn session =
        (.ok (.sequence ref, callback), session) := by
  rcases rest with - | ⟨callback, - | ⟨other, others⟩⟩
  · exact .inl ⟨_, rfl⟩
  · have given : (withFunction callee place [.sequence ref, callback]).runOn session =
        Eval.runOn session (do
          Arguments.function place callback
          return (Value.sequence ref, callback)) := rfl
    rw [given, Arguments.function]
    by_cases callable : callback.isCallable = true
    · rw [if_pos callable]
      exact .inr ⟨callback, rfl⟩
    · rw [if_neg callable]
      exact .inl ⟨_, rfl⟩
  · exact .inl ⟨_, rfl⟩

theorem runOn_withCount (callee : String) (place : Location) (ref : Nat) (rest : List Value)
    (session : Session) :
    (∃ failure, (withCount callee place (.sequence ref :: rest)).runOn session =
        (.error failure, session)) ∨
      ∃ count, (withCount callee place (.sequence ref :: rest)).runOn session =
        (.ok (.sequence ref, count), session) := by
  rcases rest with - | ⟨size, - | ⟨other, others⟩⟩
  · exact .inl ⟨_, rfl⟩
  · cases size with
    | number size =>
        have given : (withCount callee place [.sequence ref, .number size]).runOn session =
            Eval.runOn session (do
              let truncated ← Eval.lift size.truncate
              return (Value.sequence ref, truncated.toNat)) := rfl
        rw [given]
        cases size.truncate with
        | error fault => exact .inl ⟨_, rfl⟩
        | ok truncated => exact .inr ⟨truncated.toNat, rfl⟩
    | _ => exact .inl ⟨_, rfl⟩
  · exact .inl ⟨_, rfl⟩

theorem runOn_withFunction_bind (callee : String) (place : Location) (ref : Nat) (rest : List Value)
    (session : Session) {next : Value × Value → Eval Value}
    (makes : ∀ callback, ∃ label state, next (.sequence ref, callback) =
      Eval.newSequence label state) :
    (∃ failure, (withFunction callee place (.sequence ref :: rest) >>= next).runOn session =
        (.error failure, session)) ∨
      ∃ label state, (withFunction callee place (.sequence ref :: rest) >>= next).runOn session =
        (Eval.newSequence label state).runOn session := by
  rcases runOn_withFunction callee place ref rest session with ⟨failure, failed⟩ | ⟨callback, given⟩
  · exact .inl ⟨failure, Eval.runOn_bind_error failed _⟩
  · obtain ⟨label, state, made⟩ := makes callback
    exact .inr ⟨label, state, (Eval.runOn_bind_ok given _).trans (by rw [made])⟩

theorem runOn_view {function : ArrayFunction} (view : function ∈ views) (engine : Engine)
    (place : Location) (ref : Nat) (rest : List Value) (session : Session) :
    (∃ failure, (call engine place (.sequence ref :: rest) function).runOn session =
        (.error failure, session)) ∨
      ∃ label state, (call engine place (.sequence ref :: rest) function).runOn session =
        (Eval.newSequence label state).runOn session := by
  cases function with
  | map | flatMap | filter =>
      exact runOn_withFunction_bind _ place ref rest session fun callback => ⟨_, _, rfl⟩
  -- These two skip elements when they are asked for one, not before.
  | tail =>
      cases rest with
      | nil => exact .inr ⟨_, _, rfl⟩
      | cons other others => exact .inl ⟨_, rfl⟩
  | drop =>
      rcases runOn_withCount "drop" place ref rest session with
        ⟨failure, failed⟩ | ⟨count, given⟩
      · exact .inl ⟨failure, Eval.runOn_bind_error failed _⟩
      · by_cases many : countLimit < count
        · refine .inl ⟨.fault .skipOutOfRange, (Eval.runOn_bind_ok given _).trans ?_⟩
          dsimp only
          rw [if_pos many]
          rfl
        · refine .inr ⟨"drop", .skipping ref count, (Eval.runOn_bind_ok given _).trans ?_⟩
          dsimp only
          rw [if_neg many]
          rfl
  | _ => simp [views] at view

end Sequences

/-! ## The whole statement -/

/-- A range is gone through once. Whatever is done, in any order, pulls its elements in their order,
each of them once, as long as it is followed and leaves no view within a lazy sequence; and asking the
range for an element is the way to pull one. Views of a sequence are made without doing anything else.
Taking elements pulls as many as asked for, or all there are, and taking some and then all of them gives
all there were. -/
theorem Session.range_singlePass {session : Session} {ref : Nat} {sequence : LazySequence}
    (linked : session.Linked) (there : session.store.sequences[ref]? = some sequence)
    (isRange : sequence.state.isRange = true) (still : sequence.running = false) :
    (∀ patience depth operations,
      let performed := session.perform (.ofDepth patience depth) operations
      session.FollowsAll (.ofDepth patience depth) operations → performed.store.Settled →
        ∃ elements after, performed.store.sequences[ref]? = some after ∧
          after.running = false ∧ sequence.state.Gives elements after.state) ∧
    (∀ (lower : Engine) element next, sequence.state.pull = .ok (some (element, next)) →
      (lower.deeper.advance ref).runOn session = (.ok (some element), session.withState ref next)) ∧
    (∀ (engine : Engine) place source rest function, function ∈ Sequences.views →
      (∃ failure, (LibraryFunction.call engine place (.sequence source :: rest)
          (.array function)).runOn session = (.error failure, session)) ∨
        ∃ label state, (LibraryFunction.call engine place (.sequence source :: rest)
          (.array function)).runOn session = (Eval.newSequence label state).runOn session) ∧
    (∀ (lower : Engine) place size count, size.truncate = .ok count →
      count.toNat ≤ Sequences.countLimit →
      let taking := (LibraryFunction.call lower.deeper place [.sequence ref, .number size]
        (.array .take)).runOn session
      ∃ elements last, sequence.state.Pulls elements last ∧
        (elements.length = count.toNat ∧
            taking = (Eval.newArray elements.toArray).runOn (session.withState ref last) ∨
          elements.length < count.toNat ∧ last.pull = .ok none ∧
            taking = (Eval.newArray elements.toArray).runOn (session.withState ref .finished) ∨
          elements.length < count.toNat ∧ ∃ fault, last.pull = .error fault ∧
            taking = (.error (.fault fault), session.withState ref .finished))) ∧
    (∀ (lower : Engine) place size count elements last, size.truncate = .ok count →
      count.toNat ≤ Sequences.countLimit → sequence.state.Pulls elements last →
      last.pull = .ok none → elements.length < lower.patience →
      ∃ first between second after,
        (LibraryFunction.call lower.deeper place [.sequence ref, .number size]
            (.array .take)).runOn session = (.ok (.array first), between) ∧
          between.store.array first = (elements.take count.toNat).toArray ∧
          (LibraryFunction.call lower.deeper place [.sequence ref] (.array .toArray)).runOn
            between = (.ok (.array second), after) ∧
          after.store.array second = (elements.drop count.toNat).toArray) := by
  have whole : sequence.IsRange := ⟨.inl isRange, still⟩
  refine ⟨fun patience depth operations => ?_, fun lower element next pulled => ?_,
    fun engine place source rest function view => ?_,
    fun lower place size count counted few => ?_,
    fun lower place size count elements last counted few pulls ended patient => ?_⟩
  · intro _ _ _
    have ready : session.Ready (.ranges fun other => other = ref) :=
      ⟨linked, fun other (same : other = ref) => same ▸ ⟨sequence, there, whole⟩⟩
    obtain ⟨after, found, running, elements, gives⟩ :=
      (perform_changes (Engine.ofDepth_makes _ patience depth) ready operations).range rfl there
    exact ⟨elements, after, found, running.trans still, gives⟩
  · exact LazySequence.runOn_advance_some lower there still pulled
  · exact Sequences.runOn_view view engine place source rest session
  · exact Sequences.runOn_take_range there whole counted few lower place
  · exact Sequences.runOn_take_toArray there whole pulls ended counted few patient place

def threeNumbers : Session where
  store := { Store.empty with
    scopes := Scopes.empty.pushModule none
    sequences := #[⟨.string "range", .stepping (.int 0) (.int 3) (.int 1) false, false⟩] }
  core := 0
  module := 0
  files := .empty
  directory := []
  home := []
  shell := .recorded [] []
  events := #[]
  results := 0
  running := false

theorem threeNumbers_linked : threeNumbers.Linked := by
  refine ⟨fun {scope module} link => ?_, rfl⟩
  cases scope with
  | zero =>
      cases link
      exact Nat.lt_succ_self 0
  | succ scope => cases link

theorem threeNumbers_taken :
    ∃ first between second after,
      (LibraryFunction.call (Engine.ofDepth 100 2) ⟨1, 1⟩ [.sequence 0, .int 2] (.array .take)).runOn
          threeNumbers = (.ok (.array first), between) ∧
        between.store.array first = #[.int 0, .int 1] ∧
        (LibraryFunction.call (Engine.ofDepth 100 2) ⟨1, 1⟩ [.sequence 0]
            (.array .toArray)).runOn between =
          (.ok (.array second), after) ∧
        after.store.array second = #[.int 2] := by
  have pulls : SequenceState.Pulls (.stepping (.int 0) (.int 3) (.int 1) false)
      [.int 0, .int 1, .int 2] (.stepping (.int 2) (.int 3) (.int 1) true) :=
    .cons rfl (.cons rfl (.cons rfl (.nil _)))
  have there : threeNumbers.store.sequences[0]? =
      some ⟨.string "range", .stepping (.int 0) (.int 3) (.int 1) false, false⟩ := rfl
  have parts := (Session.range_singlePass threeNumbers_linked there rfl rfl).2.2.2.2
  have two : Number.truncate (.int 2) = .ok 2 := rfl
  have few : (2 : Int).toNat ≤ Sequences.countLimit := by decide +kernel
  exact parts (Engine.ofDepth 100 1) ⟨1, 1⟩ (.int 2) 2 _ _ two few pulls rfl (by decide)

/-- More elements than the host counts cannot be taken, though there are only three. -/
theorem tooMany_untaken :
    ¬∀ (session : Session) (ref : Nat) (sequence : LazySequence), session.Linked →
      session.store.sequences[ref]? = some sequence → sequence.state.isRange = true →
      sequence.running = false →
      ∀ (lower : Engine) (place : Location) (size : Number) (count : Int) (elements : List Value)
        (last : SequenceState), size.truncate = .ok count → sequence.state.Pulls elements last →
        last.pull = .ok none → elements.length < lower.patience →
        ∃ first between,
          (LibraryFunction.call lower.deeper place [.sequence ref, .number size]
              (.array .take)).runOn session = (.ok (.array first), between) ∧
            between.store.array first = (elements.take count.toNat).toArray := by
  intro taken
  have pulls : SequenceState.Pulls (.stepping (.int 0) (.int 3) (.int 1) false)
      [.int 0, .int 1, .int 2] (.stepping (.int 2) (.int 3) (.int 1) true) :=
    .cons rfl (.cons rfl (.cons rfl (.nil _)))
  obtain ⟨first, between, run, -⟩ := taken threeNumbers 0 _ threeNumbers_linked rfl rfl rfl
    (Engine.ofDepth 100 1) ⟨1, 1⟩ (.int (10 ^ 30)) (10 ^ 30) _ _ rfl pulls rfl (by decide)
  have failed : ((LibraryFunction.call (Engine.ofDepth 100 2) ⟨1, 1⟩
      [.sequence 0, .number (.int (10 ^ 30))] (.array .take)).runOn threeNumbers).1.isOk = false := by
    decide +kernel
  rw [show (Engine.ofDepth 100 1).deeper = Engine.ofDepth 100 2 from rfl] at run
  rw [run] at failed
  cases failed

end ShellLisp
