import Mathlib.Data.List.Basic
import ShellLisp.Proofs.Sequences.Views

/-!
# Steps of pipelines

What maps, filters, flattenings and drops make of a list. Applied to a lazy sequence that supplies
the list they give a view that supplies the result; applied to an array they give an array of it.
-/

namespace ShellLisp

/-- A step of a pipeline. -/
inductive Stage
  | map (function : Value)
  | filter (function : Value)
  | flatMap (function : Value)
  | drop (size : Number)
  | tail

namespace Stage

def run (engine : Engine) (place : Location) (source : Value) : Stage → Eval Value
  | map function => LibraryFunction.call engine place [source, function] (.array .map)
  | filter function => LibraryFunction.call engine place [source, function] (.array .filter)
  | flatMap function => LibraryFunction.call engine place [source, function] (.array .flatMap)
  | drop size => LibraryFunction.call engine place [source, .number size] (.array .drop)
  | tail => LibraryFunction.call engine place [source] (.array .tail)

def runAll (engine : Engine) (place : Location) : List Stage → Value → Eval Value
  | [], source => return source
  | stage :: rest, source => do runAll engine place rest (← stage.run engine place source)

/-- How many elements a size means for `drop`. -/
def dropCount (size : Number) : Except Fault Nat := do
  let count ← size.truncate
  if Sequences.countLimit < count.toNat then .error .skipOutOfRange else .ok count.toNat

section
variable {D : Type} (desc : Description D) (base : Session) (patience need : Nat)

/-- What a step makes of a list when the functions have no side effects on its elements, as far as
evaluation may still go some levels deeper. -/
inductive Turns : Stage → List D → Except Fault (List D) → Prop
  | map {function : Value} {list : List D} {image : D → D} (callable : function.isCallable = true)
      (maps : ∀ depth, need ≤ depth → ∀ d ∈ list,
        (Engine.ofDepth patience depth).Maps desc base function d (image d)) :
      Turns (.map function) list (.ok (list.map image))
  | filter {function : Value} {list : List D} {keep : D → Bool}
      (callable : function.isCallable = true)
      (judges : ∀ depth, need ≤ depth → ∀ d ∈ list,
        (Engine.ofDepth patience depth).Judges desc base function d (keep d)) :
      Turns (.filter function) list (.ok (list.filter keep))
  | flatMap {function : Value} {list : List D} {spread : D → List D}
      (callable : function.isCallable = true)
      (spreads : ∀ depth, need ≤ depth → ∀ d ∈ list,
        (Engine.ofDepth patience depth).Spreads desc base function d (spread d)) :
      Turns (.flatMap function) list (.ok (list.flatMap spread))
  | drop {size : Number} {list : List D} {count : Nat} (means : dropCount size = .ok count) :
      Turns (.drop size) list (.ok (list.drop count))
  | dropFails {size : Number} {list : List D} {fault : Fault}
      (fails : dropCount size = .error fault) : Turns (.drop size) list (.error fault)
  | tail {list : List D} : Turns .tail list (.ok (list.drop 1))

/-- What a pipeline makes of a list, all lists on the way being short enough to be gone through. -/
inductive TurnsAll : List Stage → List D → Except Fault (List D) → Prop
  | nil {list : List D} (short : list.length < patience) : TurnsAll [] list (.ok list)
  | cons {stage : Stage} {rest : List Stage} {list next : List D}
      {outcome : Except Fault (List D)} (short : list.length < patience)
      (first : Turns desc base patience need stage list (.ok next))
      (further : TurnsAll rest next outcome) : TurnsAll (stage :: rest) list outcome
  | fail {stage : Stage} {rest : List Stage} {list : List D} {fault : Fault}
      (short : list.length < patience)
      (fails : Turns desc base patience need stage list (.error fault)) :
      TurnsAll (stage :: rest) list (.error fault)

end

theorem TurnsAll.short {D : Type} {desc : Description D} {base : Session} {patience need : Nat}
    {stages : List Stage} {list : List D} {outcome : Except Fault (List D)}
    (turns : TurnsAll desc base patience need stages list outcome) : list.length < patience := by
  cases turns <;> assumption

end Stage

variable {D : Type} {desc : Description D}

/-! ## Calls -/

namespace Sequences
variable {callee : String} {source function : Value} {place : Location}

theorem runOn_withFunction_callable (iterable : source.isIterable = true)
    (callable : function.isCallable = true) (session : Session) :
    (withFunction callee place [source, function]).runOn session =
      (.ok (source, function), session) := by
  have given : (withFunction callee place [source, function]).runOn session =
      Eval.runOn session (do
        Arguments.iterable place source
        Arguments.function place function
        return (source, function)) := rfl
  rw [given, Arguments.iterable, if_pos iterable, Arguments.function, if_pos callable]
  rfl

theorem runOn_only_iterable (iterable : source.isIterable = true) (session : Session) :
    (only callee place [source]).runOn session = (.ok source, session) := by
  have given : (only callee place [source]).runOn session =
      Eval.runOn session (do
        Arguments.iterable place source
        return source) := rfl
  rw [given, Arguments.iterable, if_pos iterable]
  rfl

theorem runOn_withCount_iterable (iterable : source.isIterable = true) (size : Number)
    (session : Session) :
    (withCount callee place [source, .number size]).runOn session = Eval.runOn session (do
      let count ← Eval.lift size.truncate
      return (source, count.toNat)) := by
  have given : (withCount callee place [source, .number size]).runOn session =
      Eval.runOn session (do
        Arguments.iterable place source
        let count ← Eval.lift size.truncate
        return (source, count.toNat)) := rfl
  rw [given, Arguments.iterable, if_pos iterable]
  rfl

theorem runOn_withCount_of_truncate (iterable : source.isIterable = true) {size : Number}
    {count : Int} (truncated : size.truncate = .ok count) (session : Session) :
    (withCount callee place [source, .number size]).runOn session =
      (.ok (source, count.toNat), session) := by
  rw [runOn_withCount_iterable iterable, truncated]
  rfl

theorem runOn_drop_of_count (iterable : source.isIterable = true) {size : Number} {count : Nat}
    (means : Stage.dropCount size = .ok count) (engine : Engine) (session : Session) :
    (drop engine place [source, .number size]).runOn session =
      (skip engine "drop" source count).runOn session := by
  unfold Stage.dropCount at means
  cases truncated : size.truncate with
  | error fault =>
      rw [truncated] at means
      cases means
  | ok found =>
      rw [truncated] at means
      refine (Eval.runOn_bind_ok (runOn_withCount_of_truncate iterable truncated session) _).trans ?_
      by_cases many : countLimit < found.toNat
      · cases (if_pos many).symm.trans means
      · cases (if_neg many).symm.trans means
        dsimp only
        rw [if_neg many]

theorem runOn_drop_of_fault (iterable : source.isIterable = true) {size : Number} {fault : Fault}
    (fails : Stage.dropCount size = .error fault) (engine : Engine) (session : Session) :
    (drop engine place [source, .number size]).runOn session =
      (.error (.fault fault), session) := by
  unfold Stage.dropCount at fails
  cases truncated : size.truncate with
  | error found =>
      rw [truncated] at fails
      cases fails
      refine Eval.runOn_bind_error ?_ _
      rw [runOn_withCount_iterable iterable, truncated]
      rfl
  | ok found =>
      rw [truncated] at fails
      refine (Eval.runOn_bind_ok (runOn_withCount_of_truncate iterable truncated session) _).trans ?_
      by_cases many : countLimit < found.toNat
      · cases (if_pos many).symm.trans fails
        dsimp only
        rw [if_pos many]
        rfl
      · cases (if_neg many).symm.trans fails

end Sequences

/-! ## Lazy steps -/

namespace Stage
variable {base session : Session} {patience need below : Nat} {closed : Bool} {owned : Set Nat}
  {ref : Nat} {list next : List D}

theorem view_supplied (label : String) (state : SequenceState)
    (computed : state.isComputed = true) {inside : Set Nat}
    (computes : ∀ after, session.Grows ∅ after →
      Supplies desc (LazySequence.compute (Engine.ofDepth patience below)) closed inside after state
        next) (within : session.Present inside) :
    ∃ ref' owned' after, (Eval.newSequence label state).runOn session =
        (.ok (.sequence ref'), after) ∧ session.Grows ∅ after ∧
      Supplies desc (Engine.ofDepth patience (below + 1)).next closed owned' after (.sequence ref')
        next := by
  obtain ⟨after, run, there, growing⟩ := Eval.newSequence_grows session label state
  have apart : session.store.sequences.size ∉ inside := fun member =>
    Nat.lt_irrefl _ (within _ member)
  exact ⟨_, _, after, run, growing,
    LazySequence.supplies_computed computed (computes after growing) there apart⟩

section
variable (supplies : Supplies desc (Engine.ofDepth patience below).next closed owned session
  (.sequence ref) list)
include supplies

theorem skip_supplied (engine : Engine) (label : String) (count : Nat) :
    ∃ ref' owned' after, (Sequences.skip engine label (.sequence ref) count).runOn session =
        (.ok (.sequence ref'), after) ∧ session.Grows ∅ after ∧
      Supplies desc (Engine.ofDepth patience (below + 1)).next closed owned' after (.sequence ref')
        (list.drop count) := by
  obtain ⟨after, run, there, growing⟩ :=
    Eval.newSequence_grows session label (.skipping ref count)
  have apart : session.store.sequences.size ∉ owned := fun member =>
    Nat.lt_irrefl _ (supplies.present _ member)
  have supplies' := supplies.beside growing fun _ => False.elim
  exact ⟨_, _, after, run, growing, LazySequence.supplies_skipping supplies' there apart⟩

/-- Where a step is applied to a sequence, the result supplies what the step makes of the list. -/
theorem run_lazy {stage : Stage} (turns : Turns desc base patience need stage list (.ok next))
    (enough : need ≤ below) (short : list.length < patience) (extended : base.Extends session)
    (engine : Engine) (place : Location) :
    ∃ ref' owned' after, (stage.run engine place (.sequence ref)).runOn session =
        (.ok (.sequence ref'), after) ∧ session.Grows ∅ after ∧
      Supplies desc (Engine.ofDepth patience (below + 1)).next closed owned' after (.sequence ref')
        next := by
  have supplied {after : Session} (growing : session.Grows ∅ after) :=
    supplies.beside growing fun _ => False.elim
  have patient : list.length < (Engine.ofDepth patience below).patience := by
    rwa [Engine.patience_ofDepth]
  -- Each step wraps the sequence into a new one, which asks for nothing yet.
  cases turns with
  | @map function _ image callable maps =>
      obtain ⟨ref', owned', after, made, growing, view⟩ :=
        view_supplied "map" (.mapped ref function place) rfl (fun after growing =>
          LazySequence.compute_mapped (supplied growing) (maps below enough)
            (extended.trans growing)) supplies.present
      exact ⟨ref', owned', after, (Eval.runOn_bind_ok
        (Sequences.runOn_withFunction_callable rfl callable session) _).trans made, growing, view⟩
  | @filter function _ keep callable judges =>
      obtain ⟨ref', owned', after, made, growing, view⟩ :=
        view_supplied "filter" (.filtered ref function place) rfl (fun after growing =>
          LazySequence.compute_filtered (supplied growing) (judges below enough)
            (extended.trans growing) patient) supplies.present
      exact ⟨ref', owned', after, (Eval.runOn_bind_ok
        (Sequences.runOn_withFunction_callable rfl callable session) _).trans made, growing, view⟩
  | @flatMap function _ spread callable spreads =>
      have present : session.Present (owned ∪ ∅) := by
        rw [Set.union_empty]
        exact supplies.present
      obtain ⟨ref', owned', after, made, growing, view⟩ :=
        view_supplied "flatMap" (.flattened ref function place .ended) rfl (fun after growing =>
          LazySequence.compute_flattened (supplied growing) (Engine.supplies_ended _ after)
            (fun _ _ => False.elim) (spreads below enough) (extended.trans growing) patient) present
      exact ⟨ref', owned', after, (Eval.runOn_bind_ok
        (Sequences.runOn_withFunction_callable rfl callable session) _).trans made, growing, view⟩
  | @drop size _ count means =>
      obtain ⟨ref', owned', after, made, view⟩ := skip_supplied supplies engine "drop" count
      exact ⟨ref', owned', after,
        (Sequences.runOn_drop_of_count rfl means engine session).trans made, view⟩
  | tail =>
      obtain ⟨ref', owned', after, made, view⟩ := skip_supplied supplies engine "tail" 1
      exact ⟨ref', owned', after,
        (Eval.runOn_bind_ok (Sequences.runOn_only_iterable rfl session) _).trans made, view⟩

end

end Stage

/-! ## Eager steps -/

namespace Engine
variable {engine : Engine} {owned : Set Nat} {base session : Session} {cursor : Cursor}
  {function : Value} {list : List D}

section
variable (supplies : Supplies desc engine.next true owned session cursor list)
  (extended : base.Extends session) (patient : list.length < engine.patience)
include supplies extended patient

theorem collectMap_supplied {image : D → D}
    (maps : ∀ d ∈ list, engine.Maps desc base function d (image d)) (place : Location) :
    ∃ results after, (engine.collectMap cursor fun element =>
        engine.apply function [element] place).runOn session = (.ok results, after) ∧
      session.Grows owned after ∧ desc.Lists after results.toList (list.map image) := by
  let step (found : Array Value) (element : Value) : Eval (Array Value) :=
    return found.push (← engine.apply function [element] place)
  let good (now : Session) (found : Array Value) (done : List D) : Prop :=
    desc.Lists now found.toList (done.map image)
  have begins : good session #[] [] := .nil
  refine foldWithin_supplied step good supplies
    (fun now found done v d member further lists holds => ?_)
    (fun now after found done further lists => lists.grows further) patient begins
  obtain ⟨w, after, applied, grown, holds'⟩ :=
    maps d member now v place (extended.trans further) holds
  refine ⟨found.push w, after, Eval.runOn_bind_ok applied _, grown, ?_⟩
  show desc.Lists after (found.push w).toList ((done ++ [d]).map image)
  rw [Array.toList_push, List.map_append]
  exact (Description.Lists.grows lists grown).concat holds'

theorem filterElements_supplied {keep : D → Bool}
    (judges : ∀ d ∈ list, engine.Judges desc base function d (keep d)) (place : Location) :
    ∃ results after, (engine.foldElements cursor (#[] : Array Value) fun found element => do
        let verdict ← engine.apply function [element] place
        if ← Eval.ask fun store => store.truthy verdict then return found.push element
        else return found).runOn session = (.ok results, after) ∧
      session.Grows owned after ∧ desc.Lists after results.toList (list.filter keep) := by
  let step (found : Array Value) (element : Value) : Eval (Array Value) := do
    let verdict ← engine.apply function [element] place
    if ← Eval.ask fun store => store.truthy verdict then return found.push element
    else return found
  -- The invariant: what was found lists those elements so far that are kept.
  let good (now : Session) (found : Array Value) (done : List D) : Prop :=
    desc.Lists now found.toList (done.filter keep)
  have begins : good session #[] [] := .nil
  refine foldWithin_supplied step good supplies
    (fun now found done v d member further lists holds => ?_)
    (fun now after found done further lists => lists.grows further) patient begins
  obtain ⟨w, after, applied, grown, verdict⟩ :=
    judges d member now v place (extended.trans further) holds
  have lists' : desc.Lists after found.toList (done.filter keep) :=
    Description.Lists.grows lists grown
  have unrolled : (step found v).runOn now =
      Eval.runOn after (if keep d then return found.push v else return found) := by
    refine (Eval.runOn_bind_ok applied _).trans ?_
    rw [← verdict]
    rfl
  by_cases kept : keep d = true
  · rw [if_pos kept] at unrolled
    refine ⟨found.push v, after, unrolled, grown, ?_⟩
    show desc.Lists after (found.push v).toList ((done ++ [d]).filter keep)
    rw [Array.toList_push, List.filter_append, List.filter_cons_of_pos kept]
    exact lists'.concat (desc.grows grown.extension.store holds)
  · rw [if_neg kept] at unrolled
    refine ⟨found, after, unrolled, grown, ?_⟩
    show desc.Lists after found.toList ((done ++ [d]).filter keep)
    rw [List.filter_append, List.filter_cons_of_neg kept, List.filter_nil, List.append_nil]
    exact lists'

end

theorem pushElements_supplied (supplies : Supplies desc engine.next true owned session cursor list)
    (patient : list.length < engine.patience) {found : Array Value} {done : List D}
    (lists : desc.Lists session found.toList done) :
    ∃ results after, (engine.foldElements cursor found fun all item =>
        return all.push item).runOn session = (.ok results, after) ∧
      session.Grows owned after ∧ desc.Lists after results.toList (done ++ list) := by
  let step (all : Array Value) (item : Value) : Eval (Array Value) := return all.push item
  let good (now : Session) (all : Array Value) (more : List D) : Prop :=
    desc.Lists now all.toList (done ++ more)
  have begins : good session found [] := by
    show desc.Lists session found.toList (done ++ [])
    rwa [List.append_nil]
  refine foldWithin_supplied step good supplies (fun now all more v d _ _ lists holds => ?_)
    (fun now after all more further lists => lists.grows further) patient begins
  refine ⟨all.push v, now, rfl, .refl ∅ now, ?_⟩
  show desc.Lists now (all.push v).toList (done ++ (more ++ [d]))
  rw [Array.toList_push, ← List.append_assoc]
  exact Description.Lists.concat lists holds

theorem flattenElements_supplied
    (supplies : Supplies desc engine.next true owned session cursor list)
    (extended : base.Extends session) (patient : list.length < engine.patience)
    {spread : D → List D} (spreads : ∀ d ∈ list, engine.Spreads desc base function d (spread d))
    (short : (list.flatMap spread).length < engine.patience) (place : Location) :
    ∃ results after, (engine.foldElements cursor (#[] : Array Value) fun found element => do
        let inner ← engine.apply function [element] place
        Arguments.iterable place inner
        engine.foldElements (← Engine.entries inner) found fun all item => return all.push item
        ).runOn session = (.ok results, after) ∧
      session.Grows owned after ∧ desc.Lists after results.toList (list.flatMap spread) := by
  let good (now : Session) (found : Array Value) (done : List D) : Prop :=
    desc.Lists now found.toList (done.flatMap spread)
  have begins : good session #[] [] := .nil
  refine foldWithin_supplied _ good supplies
    (fun now found done v d member further lists holds => ?_)
    (fun now after found done further lists => lists.grows further) patient begins
  obtain ⟨w, between, within, applied, made, iterable, new, inner⟩ :=
    (spreads d member).supplied (extended.trans further) holds place
  have few : (spread d).length < engine.patience :=
    Nat.lt_of_le_of_lt (List.infix_flatMap_of_mem member spread).length_le short
  obtain ⟨results, after, pushed, grown, lists'⟩ :=
    pushElements_supplied inner few (Description.Lists.grows lists made)
  refine ⟨results, after, (Eval.runOn_bind_ok applied _).trans ?_,
    made.trans grown fun ref older owns => absurd older (Nat.not_lt.mpr (new ref owns)), ?_⟩
  · rw [Arguments.iterable, if_pos iterable]
    exact pushed
  · show desc.Lists after results.toList ((done ++ [d]).flatMap spread)
    rwa [List.flatMap_append, List.flatMap_cons, List.flatMap_nil, List.append_nil]

end Engine

namespace Eval
variable {α : Type} {session between : Session} {action : Eval α} {a : α} {owned : Set Nat}
  {list : List D}

theorem newArray_of_run (run : action.runOn session = (.ok a, between))
    (grew : session.Grows owned between) (items : α → Array Value)
    (lists : desc.Lists between (items a).toList list) :
    ∃ v after, (action >>= fun found => Eval.newArray (items found)).runOn session =
        (.ok v, after) ∧ session.Grows owned after ∧ desc.IsArray after v list := by
  obtain ⟨v, after, made, grown, isArray⟩ := lists.newArray
  exact ⟨v, after, (Eval.runOn_bind_ok run _).trans made, grew.andThen grown, isArray⟩

end Eval

theorem Sequences.toArray_supplied {engine : Engine} {owned : Set Nat} {session : Session}
    {ref : Nat} {list : List D}
    (supplies : Supplies desc engine.next true owned session (.sequence ref) list)
    (patient : list.length < engine.patience) (place : Location) :
    ∃ v after, (LibraryFunction.call engine place [.sequence ref] (.array .toArray)).runOn session =
        (.ok v, after) ∧ session.Grows owned after ∧ desc.IsArray after v list := by
  obtain ⟨items, between, collected, grew, lists⟩ := Engine.collect_supplied supplies patient
  have all : (Sequences.all engine (.sequence ref)).runOn session = (.ok items, between) := collected
  obtain ⟨v, after, made, grown⟩ := Eval.newArray_of_run all grew id lists
  exact ⟨v, after, (Eval.runOn_bind_ok (runOn_only_iterable rfl session) _).trans made, grown⟩

theorem Sequences.take_supplied {engine : Engine} {closed : Bool} {owned : Set Nat}
    {session : Session} {ref : Nat} {list : List D}
    (supplies : Supplies desc engine.next closed owned session (.sequence ref) list)
    {size : Number} {count : Int} (truncated : size.truncate = .ok count)
    (few : count.toNat ≤ countLimit) (enough : count.toNat ≤ list.length) (place : Location) :
    ∃ v after, (LibraryFunction.call engine place [.sequence ref, .number size]
        (.array .take)).runOn session = (.ok v, after) ∧ session.Grows owned after ∧
      desc.IsArray after v (list.take count.toNat) := by
  obtain ⟨items, between, taken, grew, lists⟩ := Engine.takeElements_supplied supplies enough #[]
  have lists' : desc.Lists between ((#[] : Array Value) ++ items).toList
      (list.take count.toNat) := by
    rwa [Array.toList_appendList, List.nil_append]
  obtain ⟨v, after, made, grown⟩ := Eval.newArray_of_run taken grew id lists'
  refine ⟨v, after, ?_, grown⟩
  refine (Eval.runOn_bind_ok (runOn_withCount_of_truncate rfl truncated session) _).trans ?_
  dsimp only
  rw [if_neg (Nat.not_lt.mpr few)]
  exact made

namespace Stage
variable {base session : Session} {patience need depth : Nat} {v : Value} {list next : List D}

theorem skip_array {engine : Engine} (isArray : desc.IsArray session v list)
    (patient : list.length < engine.patience) (label : String) (count : Nat) :
    ∃ w after, (Sequences.skip engine label v count).runOn session = (.ok w, after) ∧
      session.Grows ∅ after ∧ desc.IsArray after w (list.drop count) := by
  obtain ⟨items, between, collected, grew, lists⟩ :=
    Engine.collect_supplied (isArray.elements.supplies engine) patient
  obtain ⟨ref, -, rfl, -, -⟩ := isArray
  have all : (Sequences.all engine (.array ref)).runOn session = (.ok items, between) := collected
  have dropped : desc.Lists between (items.toList.drop count).toArray.toList (list.drop count) := by
    rw [List.toList_toArray]
    exact lists.drop count
  exact Eval.newArray_of_run all grew (fun found => (found.toList.drop count).toArray) dropped

/-- Where a step is applied to an array, the result is an array of what the step makes of the
list. -/
theorem run_eager {stage : Stage} (turns : Turns desc base patience need stage list (.ok next))
    (enough : need ≤ depth) (short : list.length < patience) (fits : next.length < patience)
    (extended : base.Extends session) (isArray : desc.IsArray session v list) (place : Location) :
    ∃ w after, (stage.run (Engine.ofDepth patience depth) place v).runOn session =
        (.ok w, after) ∧ session.Grows ∅ after ∧ desc.IsArray after w next := by
  have iterable : v.isIterable = true := by
    obtain ⟨ref, -, rfl, -, -⟩ := isArray
    rfl
  have supplies := isArray.elements.supplies (Engine.ofDepth patience depth)
  rw [← Engine.patience_ofDepth patience depth] at short fits
  -- Each step goes through the whole array, and puts what it makes of it into a new one.
  cases turns with
  | @map function _ image callable maps =>
      obtain ⟨results, between, mapped, grew, lists⟩ :=
        Engine.collectMap_supplied supplies extended short (maps depth enough) place
      obtain ⟨w, after, made, grown⟩ := Eval.newArray_of_run mapped grew id lists
      obtain ⟨ref, -, rfl, -, -⟩ := isArray
      exact ⟨w, after, (Eval.runOn_bind_ok
        (Sequences.runOn_withFunction_callable iterable callable session) _).trans made, grown⟩
  | @filter function _ keep callable judges =>
      obtain ⟨results, between, filtered, grew, lists⟩ :=
        Engine.filterElements_supplied supplies extended short (judges depth enough) place
      obtain ⟨w, after, made, grown⟩ := Eval.newArray_of_run filtered grew id lists
      obtain ⟨ref, -, rfl, -, -⟩ := isArray
      exact ⟨w, after, (Eval.runOn_bind_ok
        (Sequences.runOn_withFunction_callable iterable callable session) _).trans made, grown⟩
  | @flatMap function _ spread callable spreads =>
      obtain ⟨results, between, flattened, grew, lists⟩ :=
        Engine.flattenElements_supplied supplies extended short (spreads depth enough) fits place
      obtain ⟨w, after, made, grown⟩ := Eval.newArray_of_run flattened grew id lists
      obtain ⟨ref, -, rfl, -, -⟩ := isArray
      exact ⟨w, after, (Eval.runOn_bind_ok
        (Sequences.runOn_withFunction_callable iterable callable session) _).trans made, grown⟩
  | @drop size _ count means =>
      obtain ⟨w, after, made, grown⟩ := skip_array isArray short "drop" count
      exact ⟨w, after, (Sequences.runOn_drop_of_count iterable means _ session).trans made, grown⟩
  | tail =>
      obtain ⟨w, after, made, grown⟩ := skip_array isArray short "tail" 1
      exact ⟨w, after,
        (Eval.runOn_bind_ok (Sequences.runOn_only_iterable iterable session) _).trans made, grown⟩

end Stage

end ShellLisp
