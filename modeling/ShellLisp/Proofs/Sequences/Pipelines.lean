import Mathlib
import ShellLisp.Proofs.Sequences.Closures

/-!
# Lazy and eager pipelines

A pipeline of maps, filters, flattenings and drops gives the same on a range of integers as on the
array of its numbers: the views of the range compute, one element at a time, what the functions make
of arrays all at once. Of a range without end, as many elements can be taken as the pipeline gives
for some of its first numbers.
-/

namespace ShellLisp

variable {D : Type} {desc : Description D}

/-- An action comes to a value that is good for a list, or to the fault that there is instead. -/
def Eval.ComesTo (good : Session → Value → List D → Prop) (session : Session) (action : Eval Value) :
    Except Fault (List D) → Prop
  | .ok list => ∃ v after, action.runOn session = (.ok v, after) ∧ good after v list
  | .error fault => ∃ after, action.runOn session = (.error (.fault fault), after)

namespace Eval.ComesTo
variable {good better : Session → Value → List D → Prop} {session after : Session}
  {action : Eval Value} {next : Value → Eval Value} {v : Value} {outcome : Except Fault (List D)}

theorem of_run (run : action.runOn session = (.ok v, after))
    (further : ComesTo better after (next v) outcome) :
    ComesTo better session (action >>= next) outcome := by
  cases outcome with
  | ok list =>
      obtain ⟨w, last, ends, holds⟩ := further
      exact ⟨w, last, (runOn_bind_ok run next).trans ends, holds⟩
  | error fault =>
      obtain ⟨last, ends⟩ := further
      exact ⟨last, (runOn_bind_ok run next).trans ends⟩

theorem bind (first : ComesTo good session action outcome)
    (further : ∀ v after list, good after v list → ComesTo better after (next v) (.ok list)) :
    ComesTo better session (action >>= next) outcome := by
  cases outcome with
  | ok list =>
      obtain ⟨v, after, run, holds⟩ := first
      exact of_run run (further v after list holds)
  | error fault =>
      obtain ⟨last, ends⟩ := first
      exact ⟨last, runOn_bind_error ends next⟩

theorem imp (first : ComesTo good session action outcome)
    (implies : ∀ v after list, good after v list → better after v list) :
    ComesTo better session action outcome := by
  cases outcome with
  | ok list =>
      obtain ⟨v, after, run, holds⟩ := first
      exact ⟨v, after, run, implies v after list holds⟩
  | error fault => exact first

end Eval.ComesTo

namespace Stage
variable {base session : Session} {patience need : Nat} {stages : List Stage} {list : List D}
  {outcome : Except Fault (List D)} {place : Location}

theorem run_of_fault {stage : Stage} {source : Value} {fault : Fault}
    (turns : Turns desc base patience need stage list (.error fault))
    (iterable : source.isIterable = true) (engine : Engine) (place : Location) :
    (stage.run engine place source).runOn session = (.error (.fault fault), session) := by
  cases turns with
  | dropFails fails => exact Sequences.runOn_drop_of_fault iterable fails engine session

/-- What every step keeps holds of what a pipeline comes to. -/
theorem runAll_comesTo (good : Nat → Session → Value → List D → Prop) {engine : Engine}
    (iterable : ∀ level now v list, good level now v list → v.isIterable = true)
    (step : ∀ level now v stage list next, need ≤ level → good level now v list →
      Turns desc base patience need stage list (.ok next) → list.length < patience →
      next.length < patience → ∃ w after, (stage.run engine place v).runOn now = (.ok w, after) ∧
        good (level + 1) after w next)
    (turns : TurnsAll desc base patience need stages list outcome) {level : Nat}
    (enough : need ≤ level) {v : Value} (begins : good level session v list) :
    Eval.ComesTo (fun after w result => result.length < patience ∧
      good (level + stages.length) after w result) session (runAll engine place stages v) outcome := by
  induction turns generalizing session level v with
  | nil short => exact ⟨v, session, rfl, short, begins⟩
  | @cons stage rest list next outcome short first further ih =>
      obtain ⟨w, after, run, goes⟩ :=
        step level session v stage list next enough begins first short further.short
      have ends := ih (Nat.le_succ_of_le enough) goes
      rw [Nat.succ_add] at ends
      exact Eval.ComesTo.of_run run ends
  | fail short fails =>
      exact ⟨session, Eval.runOn_bind_error
        (run_of_fault fails (iterable level session v _ begins) engine place) _⟩

theorem runAll_lazy (turns : TurnsAll desc base patience need stages list outcome) {level : Nat}
    (enough : need ≤ level) (extended : base.Extends session) {closed : Bool} {owned : Set Nat}
    {ref : Nat} (supplies : Supplies desc (Engine.ofDepth patience level).next closed owned session
      (.sequence ref) list) (engine : Engine) (place : Location) :
    Eval.ComesTo (fun after w result => result.length < patience ∧ ∃ ref' owned',
      w = .sequence ref' ∧ Supplies desc (Engine.ofDepth patience (level + stages.length)).next closed
        owned' after (.sequence ref') result) session
      (runAll engine place stages (.sequence ref)) outcome := by
  let good (level : Nat) (now : Session) (v : Value) (list : List D) : Prop :=
    base.Extends now ∧ ∃ ref owned, v = .sequence ref ∧
      Supplies desc (Engine.ofDepth patience level).next closed owned now (.sequence ref) list
  refine (runAll_comesTo good (fun level now v list holds => ?_)
    (fun level now v stage list next enough holds turns short fits => ?_) turns enough
    ⟨extended, ref, owned, rfl, supplies⟩).imp fun v after list holds => ⟨holds.1, holds.2.2⟩
  · obtain ⟨-, ref, owned, rfl, -⟩ := holds
    rfl
  · obtain ⟨extended, ref, owned, rfl, supplies⟩ := holds
    obtain ⟨ref', owned', after, run, growing, view⟩ :=
      run_lazy supplies turns enough short extended engine place
    exact ⟨_, after, run, extended.trans growing, ref', owned', rfl, view⟩

theorem runAll_eager (turns : TurnsAll desc base patience need stages list outcome) {depth : Nat}
    (enough : need ≤ depth) (extended : base.Extends session) {v : Value}
    (isArray : desc.IsArray session v list) (place : Location) :
    Eval.ComesTo desc.IsArray session (runAll (Engine.ofDepth patience depth) place stages v)
      outcome := by
  let good (_ : Nat) (now : Session) (v : Value) (list : List D) : Prop :=
    base.Extends now ∧ desc.IsArray now v list
  refine (runAll_comesTo good (fun _ now v list holds => ?_)
    (fun _ now v stage list next _ holds turns short fits => ?_) turns enough
    ⟨extended, isArray⟩).imp fun v after list holds => holds.2.2
  · obtain ⟨-, ref, -, rfl, -, -⟩ := holds
    rfl
  · obtain ⟨w, after, run, growing, isArray'⟩ :=
      run_eager turns enough short fits holds.1 holds.2 place
    exact ⟨w, after, run, holds.1.trans growing, isArray'⟩

/-! ## Whole programs -/

section
variable (engine : Engine) (place : Location)

/-- The array of what a pipeline makes of a source. -/
def gathered (stages : List Stage) (source : Value) : Eval Value := do
  let view ← runAll engine place stages source
  LibraryFunction.call engine place [view] (.array .toArray)

/-- The first elements of what a pipeline makes of a source. -/
def taken (stages : List Stage) (size : Number) (source : Value) : Eval Value := do
  let view ← runAll engine place stages source
  LibraryFunction.call engine place [view, .number size] (.array .take)

/-- What a pipeline makes of the array of all elements of a source. -/
def onAll (stages : List Stage) (source : Value) : Eval Value := do
  let array ← LibraryFunction.call engine place [source] (.array .toArray)
  runAll engine place stages array

/-- What a pipeline makes of the array of the first elements of a source. -/
def onFirst (stages : List Stage) (size : Number) (source : Value) : Eval Value := do
  let array ← LibraryFunction.call engine place [source, .number size] (.array .take)
  runAll engine place stages array

end

end Stage

/-! ## Ranges as sources -/

namespace Stage
variable {base : Session} {patience need depth : Nat} {stages : List Stage} {list : List D}
  {outcome : Except Fault (List D)} {ref : Nat} {label : Value} {state last : SequenceState}
  {numbers : List Int}

/-- A range supplies its numbers at every level but the last. -/
theorem range_supplied (desc : Description D) (patience : Nat) {closed : Bool}
    (there : base.store.sequences[ref]? = some ⟨label, state, false⟩)
    (isRange : state.isRange = true) (pulls : state.Pulls (numbers.map Value.int) last)
    (ends : closed = true → last.pull = .ok none) (deep : 0 < depth) :
    Supplies desc (Engine.ofDepth patience depth).next closed {ref} base (.sequence ref)
      (numbers.map desc.number) := by
  obtain ⟨lower, rfl⟩ := Nat.exists_eq_succ_of_ne_zero (Nat.ne_of_gt deep)
  exact LazySequence.supplies_range there isRange pulls ends

section
variable (there : base.store.sequences[ref]? = some ⟨label, state, false⟩)
  (isRange : state.isRange = true) (pulls : state.Pulls (numbers.map Value.int) last)
  (deep : need + stages.length < depth)
include there isRange pulls deep

theorem gathered_range (ends : last.pull = .ok none)
    (turns : TurnsAll desc base patience need stages (numbers.map desc.number) outcome)
    (place : Location) :
    Eval.ComesTo desc.IsArray base
      (gathered (Engine.ofDepth patience depth) place stages (.sequence ref)) outcome := by
  obtain ⟨level, rfl⟩ := Nat.exists_eq_add_of_le' (Nat.le_of_lt (Nat.lt_of_add_left_lt deep))
  have below : need < level := Nat.lt_of_add_lt_add_right deep
  have supplies := range_supplied desc patience there isRange pulls (fun _ : true = true => ends)
    (Nat.zero_lt_of_lt below)
  refine (runAll_lazy turns (Nat.le_of_lt below) (.refl _ base) supplies _ place).bind ?_
  rintro v after list ⟨short, ref', owned', rfl, supplies'⟩
  rw [← Engine.patience_ofDepth patience (level + stages.length)] at short
  obtain ⟨w, last, run, -, isArray⟩ := Sequences.toArray_supplied supplies' short place
  exact ⟨w, last, run, isArray⟩

theorem taken_range
    (turns : TurnsAll desc base patience need stages (numbers.map desc.number) (.ok list))
    {size : Number} {count : Int} (truncated : size.truncate = .ok count)
    (few : count.toNat ≤ Sequences.countLimit) (enough : count.toNat ≤ list.length)
    (place : Location) :
    Eval.ComesTo desc.IsArray base
      (taken (Engine.ofDepth patience depth) place stages size (.sequence ref))
      (.ok (list.take count.toNat)) := by
  obtain ⟨level, rfl⟩ := Nat.exists_eq_add_of_le' (Nat.le_of_lt (Nat.lt_of_add_left_lt deep))
  have below : need < level := Nat.lt_of_add_lt_add_right deep
  have supplies := range_supplied desc patience there isRange pulls
    (fun never => absurd never Bool.false_ne_true) (Nat.zero_lt_of_lt below)
  obtain ⟨v, between, run, -, ref', owned', rfl, supplies'⟩ :=
    runAll_lazy turns (Nat.le_of_lt below) (.refl _ base) supplies
      (Engine.ofDepth patience (level + stages.length)) place
  obtain ⟨w, last, taking, -, isArray⟩ :=
    Sequences.take_supplied supplies' truncated few enough place
  exact ⟨w, last, (Eval.runOn_bind_ok run _).trans taking, isArray⟩

theorem onAll_range (ends : last.pull = .ok none)
    (turns : TurnsAll desc base patience need stages (numbers.map desc.number) outcome)
    (place : Location) :
    Eval.ComesTo desc.IsArray base
      (onAll (Engine.ofDepth patience depth) place stages (.sequence ref)) outcome := by
  have supplies := range_supplied desc patience there isRange pulls (fun _ : true = true => ends)
    (Nat.zero_lt_of_lt deep)
  have short := turns.short
  rw [← Engine.patience_ofDepth patience depth] at short
  obtain ⟨v, between, run, grew, isArray⟩ := Sequences.toArray_supplied supplies short place
  exact .of_run run (runAll_eager turns (Nat.le_of_lt (Nat.lt_of_add_right_lt deep)) grew.extension
    isArray place)

theorem onFirst_range (few : numbers.length ≤ Sequences.countLimit)
    (turns : TurnsAll desc base patience need stages (numbers.map desc.number) outcome)
    (place : Location) :
    Eval.ComesTo desc.IsArray base (onFirst (Engine.ofDepth patience depth) place stages
      (.int numbers.length) (.sequence ref)) outcome := by
  have supplies := range_supplied desc patience there isRange pulls
    (fun never => absurd never Bool.false_ne_true) (Nat.zero_lt_of_lt deep)
  have truncated : (Number.int numbers.length).truncate = .ok numbers.length := rfl
  obtain ⟨v, between, run, grew, isArray⟩ := Sequences.take_supplied supplies truncated
    (by rwa [Int.toNat_natCast]) (by rw [Int.toNat_natCast, List.length_map]) place
  rw [Int.toNat_natCast, List.take_of_length_le (List.length_map _).le] at isArray
  exact .of_run run (runAll_eager turns (Nat.le_of_lt (Nat.lt_of_add_right_lt deep)) grew.extension
    isArray place)

end

/-- A pipeline on a range comes to the array of what the steps make of the numbers, and to the same
when the range is made into an array first. The first elements of a pipeline on a range without end
are those of the pipeline on the array of any first numbers that give so many. -/
theorem pipelines_agree (desc : Description D) (base : Session) (place : Location)
    {patience depth need : Nat} {stages : List Stage} (deep : need + stages.length < depth) :
    (∀ (ref : Nat) (label : Value) (current stop step : Int) (started : Bool)
      (outcome : Except Fault (List D)), step ≠ 0 →
      base.store.sequences[ref]? =
        some ⟨label, .stepping (.int current) (.int stop) (.int step) started, false⟩ →
      TurnsAll desc base patience need stages ((numbersBetween
        (if started then current + step else current) stop step).map desc.number) outcome →
      Eval.ComesTo desc.IsArray base
          (gathered (Engine.ofDepth patience depth) place stages (.sequence ref)) outcome ∧
        Eval.ComesTo desc.IsArray base
          (onAll (Engine.ofDepth patience depth) place stages (.sequence ref)) outcome) ∧
    ∀ (ref : Nat) (label : Value) (start : Int) (first : Nat) (list : List D) (size : Number)
      (count : Int), size.truncate = .ok count → count.toNat ≤ Sequences.countLimit →
      first ≤ Sequences.countLimit →
      base.store.sequences[ref]? = some ⟨label, .counting (.int start), false⟩ →
      TurnsAll desc base patience need stages
        (((List.range first).map fun i : Nat => start + i).map desc.number) (.ok list) →
      count.toNat ≤ list.length →
      Eval.ComesTo desc.IsArray base
          (taken (Engine.ofDepth patience depth) place stages size (.sequence ref))
          (.ok (list.take count.toNat)) ∧
        Eval.ComesTo desc.IsArray base
          (onFirst (Engine.ofDepth patience depth) place stages (.int first) (.sequence ref))
          (.ok list) := by
  refine ⟨fun ref label current stop step started outcome nonzero there turns => ?_,
    fun ref label start first list size count truncated few fewer there turns enough => ?_⟩
  · obtain ⟨last, pulls, ends⟩ := SequenceState.pulls_numbersBetween nonzero stop current rfl
    exact ⟨gathered_range there rfl pulls deep ends turns place,
      onAll_range there rfl pulls deep ends turns place⟩
  · have pulls := SequenceState.pulls_counting start first
    have agree := onFirst_range there rfl pulls deep (by simpa using fewer) turns place
    rw [List.length_map, List.length_range] at agree
    exact ⟨taken_range there rfl pulls deep turns truncated few enough place, agree⟩

end Stage

/-! ## A pipeline of every kind of step -/

def Description.integers : Description Int where
  holds _ v n := v = .int n
  grows _ holds := holds
  number n := n
  holds_number _ _ := rfl

theorem Description.comesTo_integers {action : Eval Value} {session : Session} {list : List Int}
    (comes : Eval.ComesTo Description.integers.IsArray session action (.ok list)) :
    ∃ ref after, action.runOn session = (.ok (.array ref), after) ∧
      after.store.array ref = (list.map Value.int).toArray := by
  obtain ⟨v, after, run, ref, items, rfl, there, lists⟩ := comes
  refine ⟨ref, after, run, ?_⟩
  have same : items.toList = list.map Value.int := by
    rw [← List.forall₂_eq_eq_eq]
    exact List.forall₂_map_right_iff.mpr lists
  rw [Store.array, there, ← same]
  rfl

namespace Doubling

/-- A session with a range of three numbers, a range without end, the unary minus and a function
that gives an array with its argument twice. -/
def session : Session where
  store := { Store.empty with
    scopes := Scopes.empty.pushModule none
    arrays := #[#[.string "x"]]
    libraries := #[⟨.core .subtract, .string "-"⟩]
    closures := #[⟨.array 0, .array ⟨1, 1⟩ [.variable ⟨1, 1⟩ "x", .variable ⟨1, 1⟩ "x"], 0, .null, []⟩]
    sequences := #[⟨.string "range", .stepping (.int 0) (.int 3) (.int 1) false, false⟩,
      ⟨.string "range", .counting (.int 0), false⟩] }
  core := 0
  module := 0
  files := .empty
  directory := []
  home := []
  shell := .recorded [] []
  events := #[]
  results := 0
  running := false

/-- Minus the numbers other than zero, each twice, without the first two. -/
def stages : List Stage :=
  [.map (.library 0), .filter (.library 0), .flatMap (.closure 0), .drop (.int 1), .tail]

def result (list : List Int) : List Int :=
  ((((list.map (-·)).filter (· ≠ 0)).flatMap fun n => [n, n]).drop 1).drop 1

variable {now : Session}

theorem runOn_negate (extended : session.Extends now) (depth : Nat) (n : Int) (place : Location) :
    ((Engine.ofDepth 100 (depth + 1)).apply (.library 0) [.int n] place).runOn now =
      (.ok (.int (-n)), now) := by
  have there : now.store.libraries[0]? = some ⟨.core .subtract, .string "-"⟩ :=
    extended.store.libraries 0 _ rfl
  exact (Apply.runOn_library there _ _ _).trans rfl

theorem runOn_double (extended : session.Extends now) (depth : Nat) (n : Int) (place : Location) :
    ((Engine.ofDepth 100 (depth + 3)).apply (.closure 0) [.int n] place).runOn now =
      (Eval.newArray #[.int n, .int n]).runOn (now.entered 0 "x" (.int n)) := by
  have found := extended.store.closures 0 _ rfl
  have named := extended.store.arrays 0 _ rfl
  refine (Apply.runOn_closure found rfl named rfl _ _ place).trans ?_
  obtain ⟨module, there⟩ := now.frame_entered 0 "x" (.int n)
  have bound : (now.entered 0 "x" (.int n)).store.scopes.lookup? now.store.scopes.next "x" =
      some (.int n) := Scopes.lookup?_bound there rfl
  let known (scopes : Scopes Value) : Value :=
    (scopes.lookup? now.store.scopes.next "x").getD .null
  have evaluated : (Interpret.values (Engine.ofDepth 100 (depth + 1)) now.store.scopes.next
      [.variable ⟨1, 1⟩ "x", .variable ⟨1, 1⟩ "x"]).runOn (now.entered 0 "x" (.int n)) =
      (.ok [known (now.entered 0 "x" (.int n)).store.scopes,
        known (now.entered 0 "x" (.int n)).store.scopes], now.entered 0 "x" (.int n)) := rfl
  have twice : known (now.entered 0 "x" (.int n)).store.scopes = .int n :=
    congrArg (Option.getD · .null) bound
  rw [twice] at evaluated
  exact Eval.runOn_bind_ok evaluated _

theorem maps_negate (depth : Nat) (n : Int) :
    (Engine.ofDepth 100 (depth + 1)).Maps .integers session (.library 0) n (-n) := by
  rintro now v place extended rfl
  exact ⟨.int (-n), now, runOn_negate extended depth n place, .refl ∅ now, rfl⟩

theorem judges_negate (depth : Nat) (n : Int) :
    (Engine.ofDepth 100 (depth + 1)).Judges .integers session (.library 0) n (decide (n ≠ 0)) := by
  rintro now v place extended rfl
  refine ⟨.int (-n), now, runOn_negate extended depth n place, .refl ∅ now, ?_⟩
  show (!(Number.int (-n)).isZero) = decide (n ≠ 0)
  cases n with
  | ofNat n => cases n <;> rfl
  | negSucc n => rfl

theorem spreads_double (depth : Nat) (n : Int) :
    (Engine.ofDepth 100 (depth + 3)).Spreads .integers session (.closure 0) n [n, n] := by
  rintro now v place extended rfl
  obtain ⟨ref, after, made, there, grew⟩ :=
    Eval.newArray_grows (now.entered 0 "x" (.int n)) #[.int n, .int n]
  have lists : Description.integers.Lists after [.int n, .int n] [n, n] :=
    .cons rfl (.cons rfl .nil)
  exact ⟨.array ref, after, (runOn_double extended depth n place).trans made,
    (now.entered_grows 0 "x" (.int n)).andThen grew, .inl (.array there lists)⟩

theorem turnsAll (list : List Int) (short : list.length < 50) :
    Stage.TurnsAll .integers session 100 3 stages list (.ok (result list)) := by
  have kept : ((list.map (-·)).filter (· ≠ 0)).length < 50 :=
    Nat.lt_of_le_of_lt ((List.length_filter_le _ _).trans (List.length_map _).le) short
  have doubled : (((list.map (-·)).filter (· ≠ 0)).flatMap fun n => [n, n]).length < 100 := by
    simp only [List.length_flatMap, List.length_cons, List.length_nil, List.map_const',
      List.sum_replicate_nat]
    omega
  have dropped (count : Nat) {list : List Int} (few : list.length < 100) :
      (list.drop count).length < 100 := by
    rw [List.length_drop]
    omega
  refine .cons (by omega) (.map rfl fun depth deep n _ => ?_)
    (.cons (by rw [List.length_map]; omega) (.filter rfl fun depth deep n _ => ?_)
      (.cons (by omega) (.flatMap rfl fun depth deep n _ => ?_)
        (.cons doubled (.drop rfl) (.cons (dropped 1 doubled) .tail
          (.nil (dropped 1 (dropped 1 doubled)))))))
  all_goals obtain ⟨depth, rfl⟩ := Nat.exists_eq_add_of_le' deep
  · exact maps_negate (depth + 2) n
  · exact judges_negate (depth + 2) n
  · exact spreads_double depth n

theorem doubling_pipelines :
    (∃ ref after, (Stage.gathered (Engine.ofDepth 100 9) ⟨1, 1⟩ stages (.sequence 0)).runOn
        session = (.ok (.array ref), after) ∧ after.store.array ref = #[.int (-2), .int (-2)]) ∧
    (∃ ref after, (Stage.onAll (Engine.ofDepth 100 9) ⟨1, 1⟩ stages (.sequence 0)).runOn
        session = (.ok (.array ref), after) ∧ after.store.array ref = #[.int (-2), .int (-2)]) ∧
    (∃ ref after, (Stage.taken (Engine.ofDepth 100 9) ⟨1, 1⟩ stages (.int 3) (.sequence 1)).runOn
        session = (.ok (.array ref), after) ∧
          after.store.array ref = #[.int (-2), .int (-2), .int (-3)]) ∧
    ∃ ref after, (Stage.onFirst (Engine.ofDepth 100 9) ⟨1, 1⟩ stages (.int 4) (.sequence 1)).runOn
        session = (.ok (.array ref), after) ∧
          after.store.array ref = #[.int (-2), .int (-2), .int (-3), .int (-3)] := by
  have deep : 3 + stages.length < 9 := by decide
  obtain ⟨bounded, unbounded⟩ := Stage.pipelines_agree .integers session ⟨1, 1⟩ deep
  have three : Stage.TurnsAll .integers session 100 3 stages [0, 1, 2] (.ok [-2, -2]) :=
    turnsAll [0, 1, 2] (by decide)
  have four : Stage.TurnsAll .integers session 100 3 stages [0, 1, 2, 3] (.ok [-2, -2, -3, -3]) :=
    turnsAll [0, 1, 2, 3] (by decide)
  have numbers : (numbersBetween (if false = true then 0 + 1 else 0) 3 1).map
      Description.integers.number = [0, 1, 2] := by decide +kernel
  rw [← numbers] at three
  obtain ⟨lazily, eagerly⟩ := bounded 0 _ 0 3 1 false _ (by decide) rfl three
  have few : (3 : Int).toNat ≤ Sequences.countLimit := by decide +kernel
  have fewer : 4 ≤ Sequences.countLimit := by decide +kernel
  obtain ⟨first, prefixed⟩ := unbounded 1 _ 0 4 _ (.int 3) 3 rfl few fewer rfl four (by decide)
  exact ⟨Description.comesTo_integers lazily, Description.comesTo_integers eagerly,
    Description.comesTo_integers first, Description.comesTo_integers prefixed⟩

end Doubling

/-! ## A sequence that is given more than once -/

namespace Sharing

/-- A session with a range of two numbers and a function that always gives the same range of three
numbers. -/
def session : Session :=
  { Doubling.session with store := { Store.empty with
      scopes := (Scopes.empty.pushModule none).define 0 "s" (.sequence 1)
      arrays := #[#[.string "x"]]
      closures := #[⟨.array 0, .variable ⟨1, 1⟩ "s", 0, .null, []⟩]
      sequences := #[⟨.string "range", .stepping (.int 0) (.int 2) (.int 1) false, false⟩,
        ⟨.string "range", .stepping (.int 0) (.int 3) (.int 1) false, false⟩] } }

def stages : List Stage := [.flatMap (.closure 0), .flatMap (.closure 0)]

theorem runOn_share {now : Session} (extended : session.Extends now) (depth : Nat) (v : Value)
    (place : Location) :
    ((Engine.ofDepth 100 (depth + 2)).apply (.closure 0) [v] place).runOn now =
      (.ok (.sequence 1), now.entered 0 "x" v) := by
  have found := extended.store.closures 0 _ rfl
  have named := extended.store.arrays 0 _ rfl
  have frame := extended.store.frames 0 _ rfl
  refine (Apply.runOn_closure found rfl named rfl _ _ place).trans ?_
  obtain ⟨module, inner⟩ := now.frame_entered 0 "x" v
  have outer := (now.entered_grows 0 "x" v).store.frames 0 _ frame
  have bound : (now.entered 0 "x" v).store.scopes.lookup? 0 "s" = some (.sequence 1) :=
    Scopes.lookup?_bound outer rfl
  have older : 0 < now.store.scopes.next := (Array.getElem?_eq_some_iff.mp frame).1
  have inherited : (now.entered 0 "x" v).store.scopes.lookup? now.store.scopes.next "s" =
      some (.sequence 1) := (Scopes.lookup?_inherited inner rfl rfl older).trans bound
  exact congrArg (fun found : Option Value => (Except.ok (found.getD .null), now.entered 0 "x" v))
    inherited

/-- The function has no side effects, but whoever asks for elements of its sequence first gets
them. -/
theorem sharing_pipelines_differ :
    (∀ (now : Session) (v : Value) (place : Location), session.Extends now → ∃ after,
      ((Engine.ofDepth 100 2).apply (.closure 0) [v] place).runOn now =
          (.ok (.sequence 1), after) ∧ now.Grows ∅ after) ∧
    (∃ after, (Stage.gathered (Engine.ofDepth 100 9) ⟨1, 1⟩ stages (.sequence 0)).runOn session =
      (.ok (.array 1), after) ∧ after.store.array 1 = #[.int 1, .int 2]) ∧
    ∃ after, (Stage.onAll (Engine.ofDepth 100 9) ⟨1, 1⟩ stages (.sequence 0)).runOn session =
      (.ok (.array 3), after) ∧ after.store.array 3 = #[] := by
  refine ⟨fun now v place extended => ?_, ⟨_, Prod.ext ?_ rfl, ?_⟩, ⟨_, Prod.ext ?_ rfl, ?_⟩⟩
  · exact ⟨_, runOn_share extended 0 v place, now.entered_grows 0 "x" v⟩
  all_goals cbv

end Sharing

end ShellLisp
