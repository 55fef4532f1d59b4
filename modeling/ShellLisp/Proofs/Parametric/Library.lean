import ShellLisp.Library.Core
import ShellLisp.Proofs.Parametric.Functions

/-!
# The library under any relation

Library functions that call back into the evaluator are related when the engines are that they are
given, and so all library functions are. The commands of an interactive session do see the scopes;
they are left to the relation.
-/

namespace ShellLisp

/-- What one engine and the other do is related. A call may be at different places unless it has
several arguments: these places would be kept in lazy sequences. -/
structure Engine.Related (C : Congruence) (first second : Engine) : Prop where
  apply : ∀ {callee arguments place place'}, C.placed place place' →
    place = place' ∨ arguments.length ≤ 1 →
    C.rel (first.apply callee arguments place) (second.apply callee arguments place')
  advance : ∀ ref, C.rel (first.advance ref) (second.advance ref)
  patience : first.patience = second.patience

variable {C : Congruence} {α : Type} {first second : Engine} (engines : first.Related C second)
variable {place place' : Location} (agree : C.placed place place') {arguments : List Value}

namespace Engine

theorem entryAt_related (map position size : Nat) :
    C.rel (entryAt map position size) (entryAt map position size) := by
  refine C.bind (C.ask fun _ _ => rfl) fun entries => ?_
  exact C.ite (fun _ => C.stop _) fun _ => C.pure _

include engines in
theorem next_related (cursor : Cursor) :
    C.rel (first.next cursor) (second.next cursor) := by
  cases cursor with
  | ended => exact C.pure _
  | elements array position => exact C.bind (C.ask fun _ _ => rfl) fun items => C.pure _
  | pairs map position size =>
      refine C.bind (entryAt_related map position size) ?_
      rintro (_ | ⟨key, value⟩)
      · exact C.pure _
      · exact C.bind (C.newArray _) fun pair => C.pure _
  | keys map position size =>
      exact C.bind (entryAt_related map position size) fun entry => C.pure _
  | chars rest =>
      cases rest with
      | nil => exact C.pure _
      | cons c rest => exact C.pure _
  | items rest =>
      cases rest with
      | nil => exact C.pure _
      | cons item rest => exact C.pure _
  | sequence ref => exact C.bind (engines.advance ref) fun element => C.pure _

include engines in
theorem foldElements_related {step step' : α → Value → Eval α}
    (each : ∀ found item, C.rel (step found item) (step' found item)) (cursor : Cursor)
    (start : α) :
    C.rel (first.foldElements cursor start step) (second.foldElements cursor start step') := by
  unfold foldElements
  rw [engines.patience]
  generalize second.patience = bound
  induction bound generalizing cursor start with
  | zero => exact C.fault _
  | succ bound ih =>
      refine C.bind (next_related engines cursor) ?_
      rintro (_ | ⟨element, rest⟩)
      · exact C.pure _
      · exact C.bind (each start element) fun after => ih rest after

include engines in
theorem collect_related (cursor : Cursor) :
    C.rel (first.collect cursor) (second.collect cursor) :=
  foldElements_related engines (fun _ _ => C.pure _) cursor #[]

include engines in
theorem collectMap_related {action action' : Value → Eval Value}
    (each : ∀ item, C.rel (action item) (action' item)) (cursor : Cursor) :
    C.rel (first.collectMap cursor action) (second.collectMap cursor action') :=
  foldElements_related engines (fun _ item => C.bind (each item) fun _ => C.pure _) cursor #[]

include engines in
theorem takeElements_related (count : Nat) (cursor : Cursor) (found : Array Value) :
    C.rel (first.takeElements count cursor found) (second.takeElements count cursor found) := by
  induction count generalizing cursor found with
  | zero => exact C.pure _
  | succ count ih =>
      refine C.bind (next_related engines cursor) ?_
      rintro (_ | ⟨element, rest⟩)
      · exact C.pure _
      · exact ih rest _

theorem entries_related (value : Value) : C.rel (entries value) (entries value) :=
  C.ask fun _ _ => by cases value <;> rfl

theorem elements_related (value : Value) : C.rel (elements value) (elements value) :=
  C.ask fun _ _ => by cases value <;> rfl

end Engine

namespace Sorting
variable {less less' : α → α → Eval Bool}

section
variable (decides : ∀ a b, C.rel (less a b) (less' a b))
include decides

theorem ascending_related (row : List α) (last : α) (found : List α) :
    C.rel (ascending less last row found) (ascending less' last row found) := by
  induction row generalizing last found with
  | nil => exact C.pure _
  | cons x rest ih =>
      exact C.bind (decides x last) fun lower => C.ite (fun _ => C.pure _) fun _ => ih x _

theorem descending_related (row : List α) (last : α) (found : List α) :
    C.rel (descending less last row found) (descending less' last row found) := by
  induction row generalizing last found with
  | nil => exact C.pure _
  | cons x rest ih =>
      exact C.bind (decides x last) fun lower => C.ite (fun _ => ih x _) fun _ => C.pure _

theorem firstRun_related (row : List α) :
    C.rel (firstRun less row) (firstRun less' row) := by
  rcases row with _ | ⟨x, _ | ⟨y, rest⟩⟩
  · exact C.pure _
  · exact C.pure _
  · refine C.bind (decides y x) fun lower => C.ite (fun _ => ?_) fun _ => ?_
    · exact descending_related decides rest y _
    · exact ascending_related decides rest y _

theorem insertionPlace_related (sorted : Array α) (pivot : α) (low high : Nat) :
    C.rel (insertionPlace less sorted pivot low high)
      (insertionPlace less' sorted pivot low high) := by
  induction low, high using insertionPlace.induct sorted with
  | case1 low high bound middle inside ih₁ ih₂ =>
      rw [insertionPlace, insertionPlace, dif_pos bound, dif_pos bound]
      exact C.bind (decides _ _) fun lower => C.ite (fun _ => ih₁) fun _ => ih₂
  | case2 low high outside =>
      rw [insertionPlace, insertionPlace, dif_neg outside, dif_neg outside]
      exact C.pure _

theorem insertionSort_related (row : List α) :
    C.rel (insertionSort less row) (insertionSort less' row) := by
  refine C.bind (firstRun_related decides row) ?_
  rintro ⟨run, rest⟩
  refine C.bind (C.foldlM (fun sorted pivot => ?_) run.toArray) fun sorted => C.pure _
  exact C.bind (insertionPlace_related decides sorted pivot _ _) fun place => C.pure _

theorem merge_related (row other found : List α) :
    C.rel (merge less row other found) (merge less' row other found) := by
  induction row, other, found using merge.induct with
  | case1 other found =>
      rw [merge, merge]
      exact C.pure _
  | case2 row found filled =>
      rw [merge, merge]
      · exact C.pure _
      · exact filled
      · exact filled
  | case3 x row y other found ih₁ ih₂ =>
      rw [merge, merge]
      exact C.bind (decides y x) fun lower => C.ite (fun _ => ih₁) fun _ => ih₂

theorem sort_related (row : List α) : C.rel (sort less row) (sort less' row) := by
  unfold sort
  generalize row.length.log2 = cuts
  induction cuts generalizing row with
  | zero => exact insertionSort_related decides row
  | succ cuts ih =>
      refine C.ite (fun _ => insertionSort_related decides row) fun _ => ?_
      refine C.bind (ih _) fun lower => C.bind (ih _) fun upper => ?_
      exact merge_related decides lower upper []

end

end Sorting

namespace JsonText
include engines

theorem textWithin_related (spacing : Json.Spacing) (depth : Nat) (within : List Value)
    (level : Nat) (value : Value) :
    C.rel (textWithin first spacing depth within level value)
      (textWithin second spacing depth within level value) := by
  induction depth generalizing within level value with
  | zero => exact C.throw _
  | succ depth ih =>
      have row (items : List Value) : C.rel
          (do
            let parts ← items.mapM (textWithin first spacing depth (value :: within) (level + 1))
            return Json.bracketed spacing level "[" "]" parts)
          (do
            let parts ← items.mapM (textWithin second spacing depth (value :: within) (level + 1))
            return Json.bracketed spacing level "[" "]" parts) :=
        C.bind (C.mapM fun item => ih _ _ item) fun _ => C.pure _
      have circle : C.rel (checkCircle within value) (checkCircle within value) :=
        C.ite (fun _ => C.fault _) fun _ => C.pure _
      unfold textWithin
      dsimp only
      split
      · exact C.pure _
      · exact C.pure _
      · exact C.lift _
      · exact C.pure _
      · exact row _
      · exact C.bind circle fun _ => C.bind (C.ask fun _ _ => rfl) fun items => row _
      · refine C.bind circle fun _ => C.bind (C.ask fun _ _ => rfl) fun found => ?_
        refine C.bind (C.mapM fun entry => ?_) fun parts => C.pure _
        exact C.bind (C.lift _) fun name => C.bind (ih _ _ _) fun _ => C.pure _
      · refine C.bind circle fun _ => ?_
        exact C.bind (Engine.collect_related engines _) fun items => row _
      · exact C.bind (C.print _) fun _ => C.pure _

theorem text_related (value indentation : Value) :
    C.rel (text first value indentation) (text second value indentation) := by
  have spaced : C.rel (spacingOf indentation) (spacingOf indentation) := by
    unfold spacingOf
    split
    · exact C.pure _
    · exact C.pure _
    · exact C.bind (Operator.repetitions_related _ _ _) fun _ => C.pure _
  unfold text
  split
  · exact C.pure _
  · exact C.bind spaced fun spacing => textWithin_related engines spacing _ _ _ _

end JsonText

namespace Strings
open Arguments

section
include agree

theorem only_related {callee : String} :
    C.rel (only callee place arguments) (only callee place' arguments) :=
  C.bind (one_related agree) fun value => C.bind (string_related agree value) fun _ => C.pure _

theorem pair_related {callee : String} :
    C.rel (pair callee place arguments) (pair callee place' arguments) := by
  refine C.bind (two_related agree) ?_
  rintro ⟨text, part⟩
  refine C.bind (string_related agree text) fun _ => ?_
  exact C.bind (string_related agree part) fun _ => C.pure _

theorem split_related : C.rel (split place arguments) (split place' arguments) := by
  refine C.bind (oneOrTwo_related agree) ?_
  rintro ⟨text, given⟩
  refine C.bind (string_related agree text) fun text => ?_
  cases given with
  | none => exact C.newTexts _
  | some separator =>
      refine C.bind (string_related agree separator) fun separator => ?_
      exact C.ite (fun _ => C.newTexts _) fun _ => C.newTexts _

theorem replace_related : C.rel (replace place arguments) (replace place' arguments) := by
  refine C.bind (three_related agree) ?_
  rintro ⟨text, old, new⟩
  refine C.bind (string_related agree text) fun _ => C.bind (string_related agree old) fun _ => ?_
  exact C.bind (string_related agree new) fun _ => C.pure _

end

include engines agree in
theorem call_related (function : StringFunction) :
    C.rel (call first place arguments function) (call second place' arguments function) := by
  cases function with
  | length | trim | upper | lower => exact C.bind (only_related agree) fun _ => C.pure _
  | split => exact split_related agree
  | replace => exact replace_related agree
  | startsWith | endsWith | contains => exact C.bind (pair_related agree) fun _ => C.pure _
  | concat => exact C.bind (C.mapM fun value => C.print value) fun _ => C.pure _
  | toJson =>
      refine C.bind (oneOrTwo_related agree) ?_
      rintro ⟨value, indentation⟩
      exact C.bind (JsonText.text_related engines value _) fun _ => C.pure _

end Strings

namespace Unseeing

mutual

theorem ofJson (data : Json) : Unseeing (Session.onStore fun store => store.ofJson data) := by
  cases data with
  | null | bool | number | string => exact .result _
  | array items =>
      exact (ofItems items).andThen fun values =>
        newArray values.toArray
  | object fields =>
      exact (ofEntries fields).andThen fun entries =>
        newMap entries.toArray

theorem ofItems (items : List Json) :
    Unseeing (Session.onStore fun store => Store.ofJson.ofItems store items) := by
  cases items with
  | nil => exact result []
  | cons item rest =>
      exact (ofJson item).andThen fun value => (ofItems rest).andThen fun others =>
        result (value :: others)

theorem ofEntries (fields : List (String × Json)) :
    Unseeing (Session.onStore fun store => Store.ofJson.ofEntries store fields) := by
  cases fields with
  | nil => exact result []
  | cons field rest =>
      obtain ⟨key, item⟩ := field
      exact (ofJson item).andThen fun value => (ofEntries rest).andThen fun others =>
        result ((.string key, value) :: others)

end

end Unseeing

namespace Parsing
open Arguments

include engines agree in
theorem table_related : C.rel (table first place arguments) (table second place' arguments) := by
  have given : C.rel (tableArguments place arguments) (tableArguments place' arguments) := by
    unfold tableArguments
    split
    · exact C.pure _
    · exact C.bind (string_related agree _) fun _ => C.pure _
    · exact C.problem agree _
  refine C.bind given ?_
  rintro ⟨delimiter, keys, text⟩
  refine C.bind (iterable_related agree keys) fun _ => ?_
  refine C.bind (string_related agree text) fun text => ?_
  refine C.bind (Engine.elements_related keys) fun cursor => ?_
  refine C.bind (Engine.collect_related engines cursor) fun keys => ?_
  refine C.bind (C.mapM fun line => ?_) fun rows => C.newArray _
  exact C.bind (C.lift _) fun entries => C.newMap entries

include agree in
theorem json_related : C.rel (json place arguments) (json place' arguments) := by
  refine C.bind (Strings.only_related agree) fun text => ?_
  split
  · exact C.change (.ofJson _)
  · exact C.problem agree _
  · exact C.fault _
  · exact C.throw _

include agree in
theorem number_related : C.rel (number place arguments) (number place' arguments) := by
  refine C.bind (Strings.only_related agree) fun text => ?_
  dsimp only
  split
  · exact C.bind (C.lift _) fun _ => C.pure _
  · exact C.problem agree _

include engines agree in
theorem call_related (function : ParseFunction) :
    C.rel (call first place arguments function) (call second place' arguments function) := by
  cases function with
  | words | lines => exact C.bind (Strings.only_related agree) fun _ => C.newTexts _
  | table => exact table_related engines agree
  | json => exact json_related agree
  | number => exact number_related agree

end Parsing

namespace Sequences
open Arguments

section
include agree

theorem withFunction_related {callee : String} :
    C.rel (withFunction callee place arguments) (withFunction callee place' arguments) := by
  refine C.bind (two_related agree) ?_
  rintro ⟨source, callback⟩
  refine C.bind (iterable_related agree source) fun _ => ?_
  exact C.bind (function_related agree callback) fun _ => C.pure _

theorem only_related {callee : String} :
    C.rel (only callee place arguments) (only callee place' arguments) :=
  C.bind (one_related agree) fun source => C.bind (iterable_related agree source) fun _ => C.pure _

theorem withCount_related {callee : String} :
    C.rel (withCount callee place arguments) (withCount callee place' arguments) := by
  refine C.bind (two_related agree) ?_
  rintro ⟨source, count⟩
  refine C.bind (iterable_related agree source) fun _ => ?_
  refine C.bind (number_related agree count) fun size => ?_
  exact C.bind (C.lift _) fun _ => C.pure _

theorem range_related : C.rel (range place arguments) (range place' arguments) := by
  have numbers : C.rel (arguments.mapM (number place)) (arguments.mapM (number place')) :=
    C.mapM fun value => number_related agree value
  refine C.ite (fun _ => C.stopAt agree _) fun _ => C.bind numbers fun given => ?_
  split
  · exact C.ite (fun _ => C.stopAt agree _) fun _ => C.newSequence _ _
  · exact C.newSequence _ _
  · exact C.newSequence _ _
  · exact C.pure _

end

theorem withFunction_few (few : arguments.length ≤ 1) (callee : String) (place : Location) :
    withFunction callee place arguments =
      Eval.problem place (.takesExactly callee 2 arguments.length) := by
  rcases arguments with _ | ⟨first, _ | ⟨second, rest⟩⟩
  · rfl
  · rfl
  · simp at few

section
variable (few : place = place' ∨ arguments.length ≤ 1)
include engines agree few

omit engines in
/-- Where the places differ there is no function, and no one gets to know the place. -/
theorem withFunction_bind_related {callee : String} {next next' : Value × Value → Eval Value}
    (goesOn : place = place' → ∀ found, C.rel (next found) (next' found)) :
    C.rel (withFunction callee place arguments >>= next)
      (withFunction callee place' arguments >>= next') := by
  rcases few with rfl | few
  · exact C.bind (withFunction_related agree) (goesOn rfl)
  · rw [withFunction_few few, withFunction_few few]
    exact C.stopAt agree _

theorem map_related : C.rel (map first place arguments) (map second place' arguments) := by
  refine withFunction_bind_related agree few ?_
  rintro rfl ⟨source, callback⟩
  dsimp only
  split
  · exact C.newSequence _ _
  · refine C.bind (Engine.entries_related source) fun cursor => ?_
    refine C.bind (Engine.collectMap_related engines (fun item => ?_) cursor) fun results =>
      C.newArray results
    exact engines.apply agree (.inl rfl)

theorem flatMap_related :
    C.rel (flatMap first place arguments) (flatMap second place' arguments) := by
  refine withFunction_bind_related agree few ?_
  rintro rfl ⟨source, callback⟩
  dsimp only
  split
  · exact C.newSequence _ _
  · refine C.bind (Engine.entries_related source) fun cursor => ?_
    refine C.bind (Engine.foldElements_related engines (fun found item => ?_) cursor _)
      fun results => C.newArray results
    refine C.bind (engines.apply agree (.inl rfl)) fun inner => ?_
    refine C.bind (iterable_related agree inner) fun _ => ?_
    refine C.bind (Engine.entries_related inner) fun row => ?_
    exact Engine.foldElements_related engines (fun _ _ => C.pure _) row found

theorem filter_related : C.rel (filter first place arguments) (filter second place' arguments) := by
  refine withFunction_bind_related agree few ?_
  rintro rfl ⟨source, callback⟩
  dsimp only
  split
  · exact C.newSequence _ _
  · refine C.bind (Engine.entries_related source) fun cursor => ?_
    refine C.bind (Engine.foldElements_related engines (fun found item => ?_) cursor _)
      fun results => C.newArray results
    refine C.bind (engines.apply agree (.inl rfl)) fun verdict => ?_
    refine C.bind (C.truthy verdict) fun kept => ?_
    exact C.ite (fun _ => C.pure _) fun _ => C.pure _

theorem fold_related : C.rel (fold first place arguments) (fold second place' arguments) := by
  rcases few with rfl | few
  case inr =>
    rcases arguments with _ | ⟨one, _ | ⟨two, rest⟩⟩
    · exact C.stopAt agree _
    · exact C.stopAt agree _
    · simp at few
  refine C.bind (three_related agree) ?_
  rintro ⟨source, start, callback⟩
  refine C.bind (iterable_related agree _) fun _ => C.bind (function_related agree _) fun _ => ?_
  refine C.bind (Engine.entries_related source) fun cursor => ?_
  refine Engine.foldElements_related engines (fun found item => ?_) cursor start
  exact engines.apply agree (.inl rfl)

end

section
include engines

theorem all_related (source : Value) :
    C.rel (Sequences.all first source) (Sequences.all second source) :=
  C.bind (Engine.entries_related source) (Engine.collect_related engines)

theorem skip_related (label : String) (source : Value) (count : Nat) :
    C.rel (skip first label source count) (skip second label source count) := by
  unfold skip
  split
  · exact C.newSequence _ _
  · exact C.bind (all_related engines _) fun items => C.newArray _

end

section
variable (few : place = place' ∨ arguments.length ≤ 1)
include engines agree few

theorem sort_related : C.rel (sort first place arguments) (sort second place' arguments) := by
  rcases arguments with _ | ⟨source, _ | ⟨callback, _ | ⟨third, rest⟩⟩⟩
  · exact C.stopAt agree _
  · simp only [sort, oneOrTwo, pure_bind]
    refine C.bind (iterable_related agree _) fun _ => ?_
    refine C.bind (all_related engines source) fun items => ?_
    exact C.bind (Sorting.sort_related (fun a b => C.compared .less a b) _) fun sorted =>
      C.newArray _
  · obtain rfl : place = place' := few.resolve_right (by simp)
    simp only [sort, oneOrTwo, pure_bind]
    refine C.bind (iterable_related agree _) fun _ => ?_
    refine C.bind (all_related engines source) fun items => ?_
    refine C.bind (function_related agree callback) fun _ => ?_
    refine C.bind (Sorting.sort_related (fun a b => ?_) _) fun sorted => C.newArray _
    exact C.bind (engines.apply agree (.inl rfl)) fun verdict => C.compared .less verdict _
  · exact C.stopAt agree _

end

section
include engines agree

theorem head_related : C.rel (head first place arguments) (head second place' arguments) := by
  refine C.bind (only_related agree) fun source => ?_
  refine C.bind (Engine.entries_related source) fun cursor => ?_
  refine C.bind (Engine.next_related engines cursor) ?_
  rintro (_ | ⟨element, rest⟩)
  · exact C.pure _
  · exact C.pure _

theorem last_related : C.rel (last first place arguments) (last second place' arguments) := by
  refine C.bind (only_related agree) fun source => ?_
  refine C.bind (Engine.entries_related source) fun cursor => ?_
  exact Engine.foldElements_related engines (fun _ _ => C.pure _) cursor _

theorem take_related : C.rel (take first place arguments) (take second place' arguments) := by
  refine C.bind (withCount_related agree) ?_
  rintro ⟨source, count⟩
  refine C.ite (fun _ => C.stop _) fun _ => C.bind (Engine.entries_related source) fun cursor => ?_
  exact C.bind (Engine.takeElements_related engines count cursor _) fun found => C.newArray found

theorem drop_related : C.rel (drop first place arguments) (drop second place' arguments) := by
  refine C.bind (withCount_related agree) ?_
  rintro ⟨source, count⟩
  exact C.ite (fun _ => C.stop _) fun _ => skip_related engines "drop" source count

theorem length_related : C.rel (length first place arguments) (length second place' arguments) := by
  refine C.bind (only_related agree) fun source => ?_
  refine C.bind (Engine.entries_related source) fun cursor => ?_
  refine C.bind (Engine.foldElements_related engines (fun _ _ => C.pure _) cursor _) fun count => ?_
  exact C.pure _

theorem join_related : C.rel (join first place arguments) (join second place' arguments) := by
  refine C.bind (oneOrTwo_related agree) ?_
  rintro ⟨source, given⟩
  refine C.bind (iterable_related agree _) fun _ => ?_
  refine C.bind (string_related agree _) fun separator => ?_
  refine C.bind (Engine.entries_related source) fun cursor => ?_
  refine C.bind (Engine.foldElements_related engines (fun found item => ?_) cursor _)
    fun parts => C.pure _
  exact C.bind (C.print item) fun _ => C.pure _

theorem concat_related : C.rel (concat first place arguments) (concat second place' arguments) := by
  have iterables : C.rel (arguments.forM (iterable place)) (arguments.forM (iterable place')) :=
    C.forM fun value => iterable_related agree value
  refine C.bind iterables fun _ => C.bind (C.foldlM (fun found source => ?_) #[]) fun items =>
    C.newArray _
  exact C.bind (all_related engines source) fun items => C.pure _

variable (few : place = place' ∨ arguments.length ≤ 1)
include few

theorem call_related (function : ArrayFunction) :
    C.rel (call first place arguments function) (call second place' arguments function) := by
  cases function with
  | range => exact range_related agree
  | «from» => exact C.newArray _
  | toArray | init | reverse =>
      refine C.bind (only_related agree) fun source => ?_
      exact C.bind (all_related engines source) fun items => C.newArray _
  | map => exact map_related engines agree few
  | flatMap => exact flatMap_related engines agree few
  | filter => exact filter_related engines agree few
  | fold => exact fold_related engines agree few
  | head => exact head_related engines agree
  | tail => exact C.bind (only_related agree) fun source => skip_related engines _ source 1
  | last => exact last_related engines agree
  | take => exact take_related engines agree
  | drop => exact drop_related engines agree
  | length => exact length_related engines agree
  | join => exact join_related engines agree
  | sort => exact sort_related engines agree few
  | concat => exact concat_related engines agree

end

end Sequences

namespace Core
open Arguments

section
include agree

theorem subtract_related : C.rel (subtract place arguments) (subtract place' arguments) := by
  unfold subtract
  split
  · exact C.bind (number_related agree _) fun n => C.pure _
  · exact Operator.foldArguments_related agree fun _ _ => Operator.onNumbers_related _ _ _ _

theorem equal_related {callee : String} :
    C.rel (equal callee place arguments) (equal callee place' arguments) := by
  refine C.bind (two_related agree) ?_
  rintro ⟨left, right⟩
  exact C.read fun store hidden => store.equal_withHidden hidden left right

theorem set_related : C.rel (set place arguments) (set place' arguments) :=
  C.bind (atLeast_related agree) fun _ =>
    C.bind (Member.writeAt_related agree _ _) fun _ => C.pure _

end

section
variable (few : place = place' ∨ arguments.length ≤ 1)
include engines agree few

theorem apply_related : C.rel (apply first place arguments) (apply second place' arguments) := by
  unfold apply
  split
  · exact engines.apply agree (.inr (Nat.zero_le 1))
  · obtain rfl : place = place' := few.resolve_right (by simp)
    refine C.bind (iterable_related agree _) fun _ => ?_
    refine C.bind (Engine.elements_related _) fun cursor => ?_
    refine C.bind (Engine.collect_related engines cursor) fun elements => ?_
    exact engines.apply agree (.inl rfl)
  · exact C.problem agree _

theorem call_related (function : CoreFunction) :
    C.rel (call first place arguments function) (call second place' arguments function) := by
  cases function with
  | add => exact Operator.foldArguments_related agree Operator.add_related
  | subtract => exact subtract_related agree
  | multiply => exact Operator.foldArguments_related agree Operator.multiply_related
  | divide =>
      exact Operator.foldArguments_related agree fun _ _ => Operator.onNumbers_related _ _ _ _
  | modulo => exact Operator.foldArguments_related agree Operator.modulo_related
  | power => exact Operator.foldArguments_related agree Operator.power_related
  | equal | notEqual => exact C.bind (equal_related agree) fun _ => C.pure _
  | less | lessOrEqual | greater | greaterOrEqual =>
      exact Operator.compareArguments_related agree _
  | not => exact C.bind (one_related agree) fun value => C.bind (C.truthy value) fun _ => C.pure _
  | xor =>
      refine C.bind (two_related agree) ?_
      rintro ⟨left, right⟩
      exact C.bind (C.truthy left) fun _ => C.bind (C.truthy right) fun _ => C.pure _
  | isNull =>
      refine C.bind (one_related agree) fun value => ?_
      split
      · exact C.pure _
      · exact C.pure _
  | typeOf => exact C.bind (one_related agree) fun _ => C.pure _
  | get => exact C.bind (atLeast_related agree) fun _ => Member.followAndBind_related _ _
  | set => exact set_related agree
  | sequence => exact C.pure _
  | echo => exact Console.print_related
  | apply => exact apply_related engines agree few
  | changeDirectory =>
      refine C.bind (one_related agree) fun value => ?_
      exact C.bind (string_related agree value) Files.enter_related
  | workingDirectory =>
      exact C.bind (empty_related agree) fun _ => C.get_bind fun _ _ => C.pure _

end

end Core

include engines agree in
theorem LibraryFunction.call_related (few : place = place' ∨ arguments.length ≤ 1)
    (commands : ∀ command : SessionCommand,
      C.rel (command.call place arguments) (command.call place' arguments))
    (function : LibraryFunction) :
    C.rel (function.call first place arguments) (function.call second place' arguments) := by
  cases function with
  | core function => exact Core.call_related engines agree few function
  | array function => exact Sequences.call_related engines agree few function
  | string function => exact Strings.call_related engines agree function
  | parse function => exact Parsing.call_related engines agree function
  | console function => exact Console.call_related agree function
  | file function => exact Files.call_related agree function
  | session command => exact commands command

end ShellLisp
