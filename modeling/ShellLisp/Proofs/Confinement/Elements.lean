import ShellLisp.Library.JsonText
import ShellLisp.Library.Sorting
import ShellLisp.Proofs.Confinement.Functions

/-!
# Confined walks through elements

Going through elements asks an engine for them. Walks, sorts and the JSON text of a value are
confined when the engine is.
-/

namespace ShellLisp
open Region

structure Region.ConfinesEngine (R : Region) (engine : Engine) : Prop where
  interpret : ∀ e {scope}, R.scope scope → R.Confines (engine.interpret e scope) R.value
  apply : ∀ {callee arguments}, R.value callee → R.values arguments →
    ∀ place, R.Confines (engine.apply callee arguments place) R.value
  advance : ∀ {ref}, R.value (.sequence ref) → R.Confines (engine.advance ref) R.optional
  evaluate : ∀ source {scope}, R.scope scope → R.Confines (engine.evaluate source scope) R.value

variable {R : Region} {engine : Engine} {place : Location} {arguments : List Value}

def Region.step (R : Region) (found : Option (Value × Cursor)) : Prop :=
  ∀ element rest, found = some (element, rest) → R.value element ∧ R.cursor rest

theorem Region.step_none : R.step none := fun _ _ found => nomatch found

theorem Region.step_some {element : Value} {rest : Cursor} (inside : R.value element)
    (others : R.cursor rest) : R.step (some (element, rest)) := by
  intro found after same
  cases same
  exact ⟨inside, others⟩

namespace Engine

theorem entryAt_confined {map : Nat} (inside : R.value (.map map)) (position size : Nat) :
    R.Confines (entryAt map position size) fun found =>
      ∀ key value, found = some (key, value) → R.value key ∧ R.value value := by
  refine .bind (.map inside) fun found all => ?_
  refine .guard (.fault _) fun _ => .pure fun key value there => all (key, value) ?_
  exact List.mem_of_getElem? ((Array.getElem?_toList ..).trans there)

theorem next_confined (confined : R.ConfinesEngine engine) {cursor : Cursor}
    (inside : R.cursor cursor) : R.Confines (engine.next cursor) R.step := by
  -- A cursor gives parts of what it goes through, or the elements of a sequence of the region.
  cases cursor with
  | ended => exact .pure step_none
  | elements array position =>
      refine .bind (.array inside) fun items all => .pure fun element rest there => ?_
      obtain ⟨found, read, same⟩ := Option.map_eq_some_iff.mp there
      cases same
      exact ⟨all _ (List.mem_of_getElem? ((Array.getElem?_toList ..).trans read)), inside⟩
  | pairs map position size =>
      refine .bind (entryAt_confined inside position size) fun entry holds => ?_
      match entry with
      | none => exact .pure step_none
      | some (key, value) =>
          obtain ⟨insideKey, insideValue⟩ := holds key value rfl
          refine .bind (.newArray ?_) fun pair holdsPair => .pure (step_some holdsPair inside)
          exact values_cons.mpr ⟨insideKey, values_cons.mpr ⟨insideValue, values_nil⟩⟩
  | keys map position size =>
      refine .bind (entryAt_confined inside position size) fun entry holds => ?_
      refine .pure fun element rest there => ?_
      obtain ⟨⟨key, value⟩, rfl, same⟩ := Option.map_eq_some_iff.mp there
      cases same
      exact ⟨(holds key value rfl).1, inside⟩
  | chars rest =>
      cases rest with
      | nil => exact .pure step_none
      | cons c rest => exact .pure (step_some (R.string _) trivial)
  | items rest =>
      cases rest with
      | nil => exact .pure step_none
      | cons item rest =>
          obtain ⟨first, others⟩ := values_cons.mp inside
          exact .pure (step_some first others)
  | sequence ref =>
      refine .bind (confined.advance inside) fun element holds => .pure fun found rest there => ?_
      obtain ⟨v, rfl, same⟩ := Option.map_eq_some_iff.mp there
      cases same
      exact ⟨holds _ rfl, inside⟩

theorem foldWithin_confined (confined : R.ConfinesEngine engine) {α : Type} {holds : α → Prop}
    {step : α → Value → Eval α}
    (each : ∀ a item, holds a → R.value item → R.Confines (step a item) holds) (bound : Nat)
    {cursor : Cursor} (inside : R.cursor cursor) {start : α} (starts : holds start) :
    R.Confines (engine.foldWithin step bound cursor start) holds := by
  induction bound generalizing cursor start with
  | zero => exact .fault _
  | succ bound ih =>
      refine .bind (next_confined confined inside) fun found reached => ?_
      match found with
      | none => exact .pure starts
      | some (element, rest) =>
          obtain ⟨visible, others⟩ := reached element rest rfl
          exact .bind (each start element starts visible) fun after kept => ih others kept

theorem foldElements_confined (confined : R.ConfinesEngine engine) {α : Type} (holds : α → Prop)
    {step : α → Value → Eval α} {cursor : Cursor} (inside : R.cursor cursor) {start : α}
    (starts : holds start)
    (each : ∀ a item, holds a → R.value item → R.Confines (step a item) holds) :
    R.Confines (engine.foldElements cursor start step) holds :=
  foldWithin_confined confined each _ inside starts

theorem values_push {found : Array Value} {item : Value} (all : R.values found.toList)
    (inside : R.value item) : R.values (found.push item).toList := by
  rw [Array.toList_push]
  exact values_append all (values_cons.mpr ⟨inside, values_nil⟩)

theorem collect_confined (confined : R.ConfinesEngine engine) {cursor : Cursor}
    (inside : R.cursor cursor) :
    R.Confines (engine.collect cursor) fun found => R.values found.toList :=
  foldElements_confined confined _ inside values_nil fun _ _ all visible =>
    .pure (values_push all visible)

theorem collectMap_confined (confined : R.ConfinesEngine engine) {cursor : Cursor}
    (inside : R.cursor cursor) {action : Value → Eval Value}
    (each : ∀ item, R.value item → R.Confines (action item) R.value) :
    R.Confines (engine.collectMap cursor action) fun found => R.values found.toList :=
  foldElements_confined confined _ inside values_nil fun _ item all visible =>
    .bind (each item visible) fun _ holds => .pure (values_push all holds)

theorem takeElements_confined (confined : R.ConfinesEngine engine) (count : Nat) {cursor : Cursor}
    (inside : R.cursor cursor) {found : Array Value} (all : R.values found.toList) :
    R.Confines (engine.takeElements count cursor found) fun taken => R.values taken.toList := by
  induction count generalizing cursor found with
  | zero => exact .pure all
  | succ count ih =>
      refine .bind (next_confined confined inside) fun next reached => ?_
      match next with
      | none => exact .pure all
      | some (element, rest) =>
          obtain ⟨visible, others⟩ := reached element rest rfl
          exact ih others (values_push all visible)

end Engine

namespace Sorting

theorem values_extract {items : Array Value} (all : R.values items.toList) (first last : Nat) :
    R.values (items.extract first last).toList := by
  rw [Array.toList_extract, List.extract_eq_take_drop]
  exact values_subset all fun item member => List.mem_of_mem_drop (List.mem_of_mem_take member)

section
variable {less : Value → Value → Eval Bool}
  (decides : ∀ a b, R.value a → R.value b → R.Confines (less a b) fun _ => True)
include decides

theorem ascending_confined (row : List Value) {last : Value} {found : List Value}
    (insideLast : R.value last) (insideRow : R.values row) (insideFound : R.values found) :
    R.Confines (ascending less last row found) fun runs =>
      R.values runs.1 ∧ R.values runs.2 := by
  induction row generalizing last found with
  | nil => exact .pure ⟨values_subset insideFound (by simp), values_nil⟩
  | cons x rest ih =>
      obtain ⟨first, others⟩ := values_cons.mp insideRow
      refine .bind (decides x last first insideLast) fun lower _ => ?_
      refine .ite (fun _ => .pure ⟨values_subset insideFound (by simp), insideRow⟩) fun _ => ?_
      exact ih first others (values_cons.mpr ⟨first, insideFound⟩)

theorem descending_confined (row : List Value) {last : Value} {found : List Value}
    (insideLast : R.value last) (insideRow : R.values row) (insideFound : R.values found) :
    R.Confines (descending less last row found) fun runs =>
      R.values runs.1 ∧ R.values runs.2 := by
  induction row generalizing last found with
  | nil => exact .pure ⟨insideFound, values_nil⟩
  | cons x rest ih =>
      obtain ⟨first, others⟩ := values_cons.mp insideRow
      refine .bind (decides x last first insideLast) fun lower _ => ?_
      refine .ite (fun _ => ?_) fun _ => .pure ⟨insideFound, insideRow⟩
      exact ih first others (values_cons.mpr ⟨first, insideFound⟩)

theorem firstRun_confined {row : List Value} (inside : R.values row) :
    R.Confines (firstRun less row) fun runs => R.values runs.1 ∧ R.values runs.2 := by
  match row with
  | [] => exact .pure ⟨values_nil, values_nil⟩
  | [x] => exact .pure ⟨inside, values_nil⟩
  | x :: y :: rest =>
      obtain ⟨first, others⟩ := values_cons.mp inside
      obtain ⟨second, tail⟩ := values_cons.mp others
      have start : R.values [y, x] := by simp [Region.values, first, second]
      refine .bind (decides y x second first) fun lower _ => ?_
      exact .ite (fun _ => descending_confined decides rest second tail start)
        fun _ => ascending_confined decides rest second tail start

theorem insertionPlace_confined {sorted : Array Value} {pivot : Value}
    (insideSorted : R.values sorted.toList) (insidePivot : R.value pivot) (low high : Nat) :
    R.Confines (insertionPlace less sorted pivot low high) fun _ => True := by
  induction low, high using insertionPlace.induct sorted with
  | case1 low high bound middle inside ih₁ ih₂ =>
      rw [insertionPlace, dif_pos bound]
      refine .bind (decides _ _ insidePivot (insideSorted _ (by simp))) fun lower _ => ?_
      exact .ite (fun _ => ih₁) fun _ => ih₂
  | case2 low high outside =>
      rw [insertionPlace, dif_neg outside]
      exact .pure trivial

theorem insert_confined {sorted : Array Value} {pivot : Value}
    (insideSorted : R.values sorted.toList) (insidePivot : R.value pivot) :
    R.Confines (insert less sorted pivot) fun found => R.values found.toList := by
  refine .bind (insertionPlace_confined decides insideSorted insidePivot _ _) fun place _ => ?_
  refine .pure ?_
  rw [Array.append_eq_append, Array.toList_append]
  exact values_append (Engine.values_push (values_extract insideSorted _ _) insidePivot)
    (values_extract insideSorted _ _)

theorem insertionSort_confined {row : List Value} (inside : R.values row) :
    R.Confines (insertionSort less row) R.values := by
  refine .bind (firstRun_confined decides inside) fun ⟨run, rest⟩ ⟨insideRun, others⟩ => ?_
  have sorts : R.Confines (rest.foldlM (insert less) run.toArray) fun found =>
      R.values found.toList :=
    .foldlM insideRun fun found item member all => insert_confined decides all (others item member)
  exact sorts.bind fun sorted all => .pure all

theorem merge_confined (first second : List Value) {found : List Value}
    (insideFirst : R.values first) (insideSecond : R.values second) (insideFound : R.values found) :
    R.Confines (merge less first second found) R.values := by
  have done : R.values found.reverse := values_subset insideFound (by simp)
  induction first, second, found using merge.induct with
  | case1 second found =>
      rw [merge]
      exact .pure (values_append done insideSecond)
  | case2 first found filled =>
      rw [merge]
      · exact .pure (values_append done insideFirst)
      · exact filled
  | case3 x first y second found ih₁ ih₂ =>
      obtain ⟨insideX, restFirst⟩ := values_cons.mp insideFirst
      obtain ⟨insideY, restSecond⟩ := values_cons.mp insideSecond
      have withX : R.values (x :: found) := values_cons.mpr ⟨insideX, insideFound⟩
      have withY : R.values (y :: found) := values_cons.mpr ⟨insideY, insideFound⟩
      rw [merge]
      refine .bind (decides y x insideY insideX) fun lower _ => .ite (fun _ => ?_) fun _ => ?_
      · exact ih₁ insideFirst restSecond withY (values_subset withY (by simp))
      · exact ih₂ restFirst insideSecond withX (values_subset withX (by simp))

theorem sortWithin_confined (cuts : Nat) {row : List Value} (inside : R.values row) :
    R.Confines (sortWithin less cuts row) R.values := by
  induction cuts generalizing row with
  | zero => exact insertionSort_confined decides inside
  | succ cuts ih =>
      refine .ite (fun _ => insertionSort_confined decides inside) fun _ => ?_
      refine .bind (ih (values_subset inside (List.take_subset _ _))) fun first insideFirst => ?_
      refine .bind (ih (values_subset inside (List.drop_subset _ _))) fun second insideSecond => ?_
      exact merge_confined decides first second insideFirst insideSecond values_nil

theorem sort_confined {row : List Value} (inside : R.values row) :
    R.Confines (sort less row) R.values :=
  sortWithin_confined decides _ inside

end

end Sorting

namespace JsonText

theorem checkCircle_confined (within : List Value) (value : Value) :
    R.Confines (checkCircle within value) fun _ => True :=
  .ite (fun _ => .fault _) fun _ => .pure trivial

theorem textWithin_confined (confined : R.ConfinesEngine engine) (spacing : Json.Spacing)
    (depth : Nat) (within : List Value) (level : Nat) {value : Value} (inside : R.value value) :
    R.Confines (textWithin engine spacing depth within level value) fun _ => True := by
  induction depth generalizing within level value with
  | zero => exact .throw _
  | succ depth ih =>
      have row (items : List Value) (all : R.values items) : R.Confines (do
          let parts ← items.mapM (textWithin engine spacing depth (value :: within) (level + 1))
          return Json.bracketed spacing level "[" "]" parts) fun _ => True :=
        .bind (.mapM fun item member => ih _ _ (all item member)) fun _ _ => .pure trivial
      unfold textWithin
      dsimp only
      split
      · exact .pure trivial
      · exact .pure trivial
      · exact .lift fun _ _ => trivial
      · exact .pure trivial
      · exact row _ ((R.tuple _).mp inside)
      · refine .bind (checkCircle_confined _ _) fun _ _ => ?_
        exact .bind (.array inside) fun items all => row _ all
      · refine .bind (checkCircle_confined _ _) fun _ _ => ?_
        refine .bind (.map inside) fun found all => ?_
        refine .bind (.mapM fun entry member => ?_)
          fun parts (_ : ∀ part ∈ parts, True) => .pure trivial
        refine .bind (.lift fun _ _ => trivial) fun name _ => ?_
        exact .bind (ih _ _ (all entry member).2) fun _ _ => .pure trivial
      · refine .bind (checkCircle_confined _ _) fun _ _ => ?_
        exact .bind (Engine.collect_confined confined inside) fun items all => row _ all
      · exact .bind (.print _) fun _ _ => .pure trivial

theorem spacingOf_confined (indentation : Value) :
    R.Confines (spacingOf indentation) fun _ => True := by
  unfold spacingOf
  split
  · exact .pure trivial
  · exact .pure trivial
  · exact .bind (Operator.repetitions_confined _ _ _) fun _ _ => .pure trivial

theorem text_confined (confined : R.ConfinesEngine engine) {value : Value} (inside : R.value value)
    (indentation : Value) : R.Confines (text engine value indentation) fun _ => True := by
  unfold text
  split
  · exact .pure trivial
  · refine .bind (spacingOf_confined _) fun spacing _ => ?_
    exact textWithin_confined confined spacing _ _ _ inside

end JsonText

end ShellLisp
