import ShellLisp.Library.Core
import ShellLisp.Proofs.Confinement.Elements

/-!
# Confined calls of library functions

The library functions that call back into the evaluator, and from them every call of a library
function. What the commands of an interactive session do to the scopes is not bounded by the laws of
a region, so that they are taken to be confined here where the region has them at all.
-/

namespace ShellLisp
open Region

variable {R : Region} {engine : Engine} {place : Location} {arguments : List Value}

namespace Strings
open Arguments

theorem only_confined {callee : String} (all : R.values arguments) :
    R.Confines (only callee place arguments) fun _ => True :=
  .bind (one_confined all) fun text _ => .bind (string_confined text) fun _ _ => .pure trivial

theorem pair_confined {callee : String} (all : R.values arguments) :
    R.Confines (pair callee place arguments) fun _ => True := by
  refine .bind (two_confined all) fun ⟨text, part⟩ _ => ?_
  refine .bind (string_confined text) fun _ _ => ?_
  exact .bind (string_confined part) fun _ _ => .pure trivial

theorem array_confined (texts : List (List Char)) : R.Confines (array texts) R.value :=
  .newTexts _

theorem split_confined (all : R.values arguments) : R.Confines (split place arguments) R.value := by
  refine .bind (oneOrTwo_confined all) fun ⟨text, given⟩ _ => ?_
  refine .bind (string_confined text) fun text _ => ?_
  cases given with
  | none => exact array_confined _
  | some separator =>
      refine .bind (string_confined separator) fun separator _ => ?_
      exact .ite (fun _ => array_confined _) fun _ => array_confined _

theorem replace_confined (all : R.values arguments) :
    R.Confines (replace place arguments) R.value := by
  refine .bind (three_confined all) fun ⟨text, old, new⟩ _ => ?_
  refine .bind (string_confined text) fun _ _ => ?_
  refine .bind (string_confined old) fun _ _ => ?_
  exact .bind (string_confined new) fun _ _ => .pure (R.string _)

theorem concat_confined : R.Confines (concat arguments) R.value :=
  .bind (.mapM fun value _ => .print value) fun _ _ => .pure (R.string _)

theorem toJson_confined (confined : R.ConfinesEngine engine) (all : R.values arguments) :
    R.Confines (toJson engine place arguments) R.value := by
  refine .bind (oneOrTwo_confined all) fun ⟨value, indentation⟩ ⟨inside, _⟩ => ?_
  exact .bind (JsonText.text_confined confined inside _) fun _ _ => .pure (R.string _)

theorem call_confined (confined : R.ConfinesEngine engine) (all : R.values arguments)
    (function : StringFunction) : R.Confines (call engine place arguments function) R.value := by
  cases function with
  | length => exact .bind (only_confined all) fun _ _ => .pure (R.number _)
  | split => exact split_confined all
  | trim | upper | lower => exact .bind (only_confined all) fun _ _ => .pure (R.string _)
  | replace => exact replace_confined all
  | startsWith | endsWith | contains =>
      exact .bind (pair_confined all) fun _ _ => .pure (R.bool _)
  | concat => exact concat_confined
  | toJson => exact toJson_confined confined all

end Strings

namespace Parsing
open Arguments

theorem rowEntries_confined {keys : List Value} (insideKeys : R.values keys)
    (fields : List (List Char)) {found written : Entries} (all : R.entries found.toList)
    (returned : rowEntries keys fields found = .ok written) : R.entries written.toList := by
  induction keys generalizing fields found with
  | nil =>
      cases returned
      exact all
  | cons key rest ih =>
      obtain ⟨insideKey, others⟩ := values_cons.mp insideKeys
      unfold rowEntries at returned
      cases checked : key.checkKey with
      | error fault => rw [checked] at returned; cases returned
      | ok _ =>
          rw [checked] at returned
          refine ih others _ (entries_put all insideKey ?_) returned
          refine optional_getD (fun v same => ?_) R.null
          obtain ⟨text, -, rfl⟩ := Option.map_eq_some_iff.mp same
          exact R.string _

theorem tableArguments_confined (all : R.values arguments) :
    R.Confines (tableArguments place arguments) fun found =>
      R.value found.2.1 ∧ R.value found.2.2 := by
  unfold tableArguments
  split
  · exact .pure ⟨all _ (by simp), all _ (by simp)⟩
  · refine .bind (string_confined _) fun _ _ => .pure ⟨all _ (by simp), all _ (by simp)⟩
  · exact .problem _ _

theorem table_confined (confined : R.ConfinesEngine engine) (all : R.values arguments) :
    R.Confines (table engine place arguments) R.value := by
  refine .bind (tableArguments_confined all) fun ⟨delimiter, keys, text⟩ inside => ?_
  refine .bind (iterable_confined _) fun _ _ => ?_
  refine .bind (string_confined text) fun text _ => ?_
  refine .bind (.elements inside.1) fun cursor inside => ?_
  refine .bind (Engine.collect_confined confined inside) fun names allNames => ?_
  refine .bind (.mapM fun line _ => ?_) fun rows allRows => .newArray allRows
  refine .bind (.lift fun found returned => ?_) fun found allEntries => .newMap allEntries
  exact rowEntries_confined allNames _ (fun _ member => absurd member (by simp)) returned

theorem json_confined (all : R.values arguments) : R.Confines (json place arguments) R.value := by
  refine .bind (Strings.only_confined all) fun text _ => ?_
  split
  · exact .change (.ofJson _)
  · exact .problem _ _
  · exact .fault _
  · exact .throw _

theorem number_confined (all : R.values arguments) :
    R.Confines (number place arguments) R.value := by
  refine .bind (Strings.only_confined all) fun text _ => ?_
  dsimp only
  split
  · exact .bind (.lift fun _ _ => trivial) fun n _ => .pure (R.number n)
  · exact .problem _ _

theorem call_confined (confined : R.ConfinesEngine engine) (all : R.values arguments)
    (function : ParseFunction) : R.Confines (call engine place arguments function) R.value := by
  cases function with
  | words | lines =>
      exact .bind (Strings.only_confined all) fun _ _ => Strings.array_confined _
  | table => exact table_confined confined all
  | json => exact json_confined all
  | number => exact number_confined all

end Parsing

namespace Sequences
open Arguments

theorem withFunction_confined {callee : String} (all : R.values arguments) :
    R.Confines (withFunction callee place arguments) fun found =>
      R.value found.1 ∧ R.value found.2 := by
  refine .bind (two_confined all) fun ⟨source, callback⟩ inside => ?_
  refine .bind (iterable_confined _) fun _ _ => ?_
  exact .bind (function_confined _) fun _ _ => .pure inside

theorem only_confined {callee : String} (all : R.values arguments) :
    R.Confines (only callee place arguments) R.value := by
  refine .bind (one_confined all) fun source inside => ?_
  exact .bind (iterable_confined _) fun _ _ => .pure inside

theorem withCount_confined {callee : String} (all : R.values arguments) :
    R.Confines (withCount callee place arguments) fun found => R.value found.1 := by
  refine .bind (two_confined all) fun ⟨source, count⟩ ⟨inside, _⟩ => ?_
  refine .bind (iterable_confined _) fun _ _ => ?_
  refine .bind (number_confined count) fun size _ => ?_
  exact .bind (.lift fun _ _ => trivial) fun _ _ => .pure inside

theorem range_confined : R.Confines (range place arguments) R.value := by
  refine .guard (.problem _ _) fun _ => ?_
  refine .bind (.mapM fun value _ => number_confined value) fun numbers _ => ?_
  split
  · exact .guard (.problem _ _) fun _ => .newSequence _ trivial
  · exact .newSequence _ trivial
  · exact .newSequence _ trivial
  · exact .pure R.null

theorem map_confined (confined : R.ConfinesEngine engine) (all : R.values arguments) :
    R.Confines (map engine place arguments) R.value := by
  refine .bind (withFunction_confined all) fun ⟨source, callback⟩ inside => ?_
  dsimp only
  split
  · exact .newSequence _ inside
  · refine .bind (.entries inside.1) fun cursor walked => ?_
    refine .bind (Engine.collectMap_confined confined walked fun item visible => ?_)
      fun results allResults => .newArray allResults
    exact confined.apply inside.2 (values_cons.mpr ⟨visible, values_nil⟩) place

theorem flatMap_confined (confined : R.ConfinesEngine engine) (all : R.values arguments) :
    R.Confines (flatMap engine place arguments) R.value := by
  refine .bind (withFunction_confined all) fun ⟨source, callback⟩ inside => ?_
  dsimp only
  split
  · exact .newSequence _ ⟨inside.1, inside.2, trivial⟩
  · refine .bind (.entries inside.1) fun cursor walked => ?_
    refine .bind (Engine.foldElements_confined confined (fun found => R.values found.toList) walked
      values_nil fun found item allFound visible => ?_) fun results allResults =>
        .newArray allResults
    refine .bind (confined.apply inside.2 (values_cons.mpr ⟨visible, values_nil⟩) place)
      fun inner holds => ?_
    refine .bind (iterable_confined _) fun _ _ => ?_
    refine .bind (.entries holds) fun others walkedInner => ?_
    exact Engine.foldElements_confined confined _ walkedInner allFound fun _ item allInner seen =>
      .pure (Engine.values_push allInner seen)

theorem filter_confined (confined : R.ConfinesEngine engine) (all : R.values arguments) :
    R.Confines (filter engine place arguments) R.value := by
  refine .bind (withFunction_confined all) fun ⟨source, callback⟩ inside => ?_
  dsimp only
  split
  · exact .newSequence _ inside
  · refine .bind (.entries inside.1) fun cursor walked => ?_
    refine .bind (Engine.foldElements_confined confined (fun found => R.values found.toList) walked
      values_nil fun found item allFound visible => ?_) fun results allResults =>
        .newArray allResults
    refine .bind (confined.apply inside.2 (values_cons.mpr ⟨visible, values_nil⟩) place)
      fun verdict _ => ?_
    refine .bind (.truthy verdict) fun kept _ => ?_
    exact .ite (fun _ => .pure (Engine.values_push allFound visible)) fun _ => .pure allFound

theorem fold_confined (confined : R.ConfinesEngine engine) (all : R.values arguments) :
    R.Confines (fold engine place arguments) R.value := by
  refine .bind (three_confined all) fun ⟨source, start, callback⟩ inside => ?_
  obtain ⟨insideSource, insideStart, insideCallback⟩ := inside
  refine .bind (iterable_confined _) fun _ _ => ?_
  refine .bind (function_confined _) fun _ _ => ?_
  refine .bind (.entries insideSource) fun cursor walked => ?_
  refine Engine.foldElements_confined confined _ walked insideStart fun found item holds visible =>
    confined.apply insideCallback ?_ place
  exact values_cons.mpr ⟨holds, values_cons.mpr ⟨visible, values_nil⟩⟩

theorem head_confined (confined : R.ConfinesEngine engine) (all : R.values arguments) :
    R.Confines (head engine place arguments) R.value := by
  refine .bind (only_confined all) fun source inside => ?_
  refine .bind (.entries inside) fun cursor walked => ?_
  refine .bind (Engine.next_confined confined walked) fun found reached => ?_
  match found with
  | some (element, rest) => exact .pure (reached element rest rfl).1
  | none => exact .pure R.null

theorem all_confined (confined : R.ConfinesEngine engine) {source : Value}
    (inside : R.value source) :
    R.Confines (Sequences.all engine source) fun found => R.values found.toList :=
  .bind (.entries inside) fun _ walked => Engine.collect_confined confined walked

theorem skip_confined (confined : R.ConfinesEngine engine) (label : String) {source : Value}
    (inside : R.value source) (count : Nat) :
    R.Confines (skip engine label source count) R.value := by
  unfold skip
  split
  · exact .newSequence _ inside
  · refine .bind (all_confined confined inside) fun items allItems => .newArray ?_
    exact values_subset allItems (List.drop_subset _ _)

theorem last_confined (confined : R.ConfinesEngine engine) (all : R.values arguments) :
    R.Confines (last engine place arguments) R.value := by
  refine .bind (only_confined all) fun source inside => ?_
  refine .bind (.entries inside) fun cursor walked => ?_
  exact Engine.foldElements_confined confined _ walked R.null fun _ _ _ visible => .pure visible

theorem take_confined (confined : R.ConfinesEngine engine) (all : R.values arguments) :
    R.Confines (take engine place arguments) R.value := by
  refine .bind (withCount_confined all) fun ⟨source, count⟩ inside => ?_
  refine .guard (.fault _) fun _ => ?_
  refine .bind (.entries inside) fun cursor walked => ?_
  exact .bind (Engine.takeElements_confined confined count walked values_nil) fun _ allTaken =>
    .newArray allTaken

theorem drop_confined (confined : R.ConfinesEngine engine) (all : R.values arguments) :
    R.Confines (drop engine place arguments) R.value := by
  refine .bind (withCount_confined all) fun ⟨source, count⟩ inside => ?_
  exact .guard (.fault _) fun _ => skip_confined confined _ inside count

theorem length_confined (confined : R.ConfinesEngine engine) (all : R.values arguments) :
    R.Confines (length engine place arguments) R.value := by
  refine .bind (only_confined all) fun source inside => ?_
  refine .bind (.entries inside) fun cursor walked => ?_
  exact .bind (Engine.foldElements_confined confined (fun _ => True) walked trivial
    fun _ _ _ _ => .pure trivial) fun _ _ => .pure (R.number _)

theorem join_confined (confined : R.ConfinesEngine engine) (all : R.values arguments) :
    R.Confines (join engine place arguments) R.value := by
  refine .bind (oneOrTwo_confined all) fun ⟨source, given⟩ inside => ?_
  refine .bind (iterable_confined _) fun _ _ => ?_
  refine .bind (string_confined _) fun separator _ => ?_
  refine .bind (.entries inside.1) fun cursor walked => ?_
  exact .bind (Engine.foldElements_confined confined (fun _ => True) walked trivial
    fun _ item _ _ => .bind (.print item) fun _ _ => .pure trivial) fun _ _ =>
      .pure (R.string _)

theorem sort_confined (confined : R.ConfinesEngine engine) (all : R.values arguments) :
    R.Confines (sort engine place arguments) R.value := by
  refine .bind (oneOrTwo_confined all) fun ⟨source, given⟩ inside => ?_
  refine .bind (iterable_confined _) fun _ _ => ?_
  refine .bind (all_confined confined inside.1) fun items allItems => ?_
  cases given with
  | none =>
      refine .bind (Sorting.sort_confined (fun a b _ _ => .compared .less a b) allItems)
        fun sorted allSorted => .newArray allSorted
  | some callback =>
      refine .bind (function_confined _) fun _ _ => ?_
      refine .bind (Sorting.sort_confined (fun a b visibleA visibleB => ?_) allItems)
        fun sorted allSorted => .newArray allSorted
      refine .bind (confined.apply (inside.2 callback rfl) ?_ place) fun verdict _ =>
        .compared .less verdict _
      exact values_cons.mpr ⟨visibleA, values_cons.mpr ⟨visibleB, values_nil⟩⟩

theorem concat_confined (confined : R.ConfinesEngine engine) (all : R.values arguments) :
    R.Confines (concat engine place arguments) R.value := by
  refine .bind (.forM fun source _ => iterable_confined source) fun _ _ => ?_
  have joins : R.Confines (arguments.foldlM (fun found source => return found ++
      (← Sequences.all engine source)) #[]) fun found => R.values found.toList := by
    refine .foldlM values_nil fun found source member allFound => ?_
    refine .bind (all_confined confined (all source member)) fun items allItems => .pure ?_
    rw [Array.toList_append]
    exact values_append allFound allItems
  exact joins.bind fun items allItems => .newArray allItems

theorem call_confined (confined : R.ConfinesEngine engine) (all : R.values arguments)
    (function : ArrayFunction) : R.Confines (call engine place arguments function) R.value := by
  cases function with
  | range => exact range_confined
  | «from» => exact .newArray all
  | toArray =>
      refine .bind (only_confined all) fun source inside => ?_
      exact .bind (all_confined confined inside) fun _ allItems => .newArray allItems
  | map => exact map_confined confined all
  | flatMap => exact flatMap_confined confined all
  | filter => exact filter_confined confined all
  | fold => exact fold_confined confined all
  | head => exact head_confined confined all
  | tail =>
      exact .bind (only_confined all) fun source inside => skip_confined confined _ inside 1
  | init =>
      refine .bind (only_confined all) fun source inside => ?_
      refine .bind (all_confined confined inside) fun items allItems => .newArray ?_
      rw [Array.toList_pop]
      exact values_subset allItems (List.dropLast_subset _)
  | last => exact last_confined confined all
  | take => exact take_confined confined all
  | drop => exact drop_confined confined all
  | length => exact length_confined confined all
  | join => exact join_confined confined all
  | reverse =>
      refine .bind (only_confined all) fun source inside => ?_
      refine .bind (all_confined confined inside) fun items allItems => .newArray ?_
      exact values_subset allItems (by simp)
  | sort => exact sort_confined confined all
  | concat => exact concat_confined confined all

end Sequences

namespace Core
open Arguments

theorem subtract_confined (all : R.values arguments) :
    R.Confines (subtract place arguments) R.value := by
  unfold subtract
  split
  · exact .bind (number_confined _) fun n _ => .pure (R.number _)
  · exact Operator.foldArguments_confined
      (fun _ _ _ _ => Operator.onNumbers_confined _ _ _ _) all

theorem equal_confined {callee : String} (all : R.values arguments) :
    R.Confines (equal callee place arguments) fun _ => True := by
  refine .bind (two_confined all) fun ⟨left, right⟩ _ => ?_
  exact .read (fun store scopes => store.equal_withScopes scopes left right) fun _ _ _ _ => trivial

theorem get_confined (all : R.values arguments) : R.Confines (get place arguments) R.value := by
  refine .bind atLeast_confined fun _ _ => ?_
  exact Member.followAndBind_confined (values_headD all) _

theorem set_confined (all : R.values arguments) : R.Confines (set place arguments) R.value := by
  refine .bind atLeast_confined fun _ _ => ?_
  refine .bind (Member.writeAt_confined (values_headD all) ?_) fun _ _ => .pure (values_headD all)
  exact values_subset all fun _ => List.mem_of_mem_tail

theorem apply_confined (confined : R.ConfinesEngine engine) (all : R.values arguments) :
    R.Confines (apply engine place arguments) R.value := by
  unfold apply
  split
  · exact confined.apply (all _ (by simp)) values_nil place
  · refine .bind (iterable_confined _) fun _ _ => ?_
    refine .bind (.elements (all _ (by simp))) fun cursor walked => ?_
    refine .bind (Engine.collect_confined confined walked) fun elements allElements => ?_
    exact confined.apply (all _ (by simp)) allElements place
  · exact .problem _ _

theorem call_confined (confined : R.ConfinesEngine engine) (all : R.values arguments)
    (function : CoreFunction) : R.Confines (call engine place arguments function) R.value := by
  have folded {callee : String} {operation : Value → Value → Eval Value}
      (each : ∀ left right, R.value left → R.value right →
        R.Confines (operation left right) R.value) :
      R.Confines (Operator.foldArguments callee operation place arguments) R.value :=
    Operator.foldArguments_confined each all
  cases function with
  | add => exact folded fun _ _ => Operator.add_confined
  | subtract => exact subtract_confined all
  | multiply => exact folded fun _ _ => Operator.multiply_confined
  | divide => exact folded fun _ _ _ _ => Operator.onNumbers_confined _ _ _ _
  | modulo => exact folded fun _ _ _ _ => Operator.modulo_confined _ _
  | power => exact folded fun _ _ _ _ => Operator.power_confined _ _
  | equal | notEqual => exact .bind (equal_confined all) fun _ _ => .pure (R.bool _)
  | less | lessOrEqual | greater | greaterOrEqual => exact Operator.compareArguments_confined _
  | not =>
      refine .bind (one_confined all) fun value _ => ?_
      exact .bind (.truthy value) fun _ _ => .pure (R.bool _)
  | xor =>
      refine .bind (two_confined all) fun ⟨left, right⟩ _ => ?_
      refine .bind (.truthy left) fun _ _ => ?_
      exact .bind (.truthy right) fun _ _ => .pure (R.bool _)
  | isNull =>
      refine .bind (one_confined all) fun value _ => ?_
      split
      · exact .pure (R.bool _)
      · exact .pure (R.bool _)
  | typeOf => exact .bind (one_confined all) fun _ _ => .pure (R.string _)
  | get => exact get_confined all
  | set => exact set_confined all
  | sequence => exact .pure (values_getLastD all)
  | echo => exact Console.print_confined
  | apply => exact apply_confined confined all
  | changeDirectory =>
      refine .bind (one_confined all) fun value _ => ?_
      exact .bind (string_confined value) fun text _ => Files.enter_confined text
  | workingDirectory =>
      refine .bind empty_confined fun _ _ => ?_
      exact .get_bind (fun _ _ => rfl) fun _ _ => .pure (R.string _)

end Core

def Region.ConfinesCommands (R : Region) : Prop :=
  ∀ command, R.function (.session command) → ∀ place arguments,
    R.Confines (command.call place arguments) R.value

theorem LibraryFunction.call_confined (confined : R.ConfinesEngine engine)
    (commands : R.ConfinesCommands) (all : R.values arguments) {function : LibraryFunction}
    (inside : R.function function) :
    R.Confines (function.call engine place arguments) R.value := by
  cases function with
  | core function => exact Core.call_confined confined all function
  | array function => exact Sequences.call_confined confined all function
  | string function => exact Strings.call_confined confined all function
  | parse function => exact Parsing.call_confined confined all function
  | console function => exact Console.call_confined function
  | file function => exact Files.call_confined all function
  | session command => exact commands command inside place arguments

end ShellLisp
