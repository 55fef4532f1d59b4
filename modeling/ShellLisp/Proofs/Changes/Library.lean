import ShellLisp.Proofs.Changes.Sparing

/-!
# Changes that library functions make

Every library function changes a session by single steps only, when the engine that it calls back
does. The function `set` writes a map entry that its arguments say, so that it stands apart here: the
entry must not be reserved.
-/

namespace ShellLisp
open Session

structure Engine.MakesChanges (reserved : Guarded) (engine : Engine) : Prop where
  interpret : ∀ {locals : Nat → Prop} (e : Expr) (scope : Nat),
    Makes reserved locals (engine.interpret e scope)
  apply : ∀ {locals : Nat → Prop} (callee : Value) (arguments : List Value) (place : Location),
    Makes reserved locals (engine.apply callee arguments place)
  advance : ∀ {locals : Nat → Prop} (ref : Nat), Makes reserved locals (engine.advance ref)
  evaluate : ∀ {locals : Nat → Prop} (source : String) (scope : Nat),
    Makes reserved locals (engine.evaluate source scope)

variable {reserved : Guarded} {locals : Nat → Prop} {engine : Engine} {place : Location}
  {arguments : List Value} {α : Type}

/-! ## Arguments and operators -/

namespace Arguments

theorem one_makes (callee : String) : Makes reserved locals (one callee place arguments) := by
  unfold one
  split
  · exact .pure _
  · exact .problem _ _

theorem two_makes (callee : String) : Makes reserved locals (two callee place arguments) := by
  unfold two
  split
  · exact .pure _
  · exact .problem _ _

theorem three_makes (callee : String) : Makes reserved locals (three callee place arguments) := by
  unfold three
  split
  · exact .pure _
  · exact .problem _ _

theorem empty_makes (callee : String) : Makes reserved locals (empty callee place arguments) := by
  unfold empty
  split
  · exact .pure _
  · exact .problem _ _

theorem oneOrTwo_makes (callee : String) :
    Makes reserved locals (oneOrTwo callee place arguments) := by
  unfold oneOrTwo
  split
  · exact .pure _
  · exact .pure _
  · exact .problem _ _

theorem atLeast_makes (callee : String) (least : Nat) :
    Makes reserved locals (atLeast callee least place arguments) := .ite (.problem _ _) (.pure _)

theorem string_makes (value : Value) : Makes reserved locals (string place value) := by
  unfold string
  split
  · exact .pure _
  · exact .problem _ _

theorem nonEmptyString_makes (value : Value) :
    Makes reserved locals (nonEmptyString place value) := by
  unfold nonEmptyString
  split
  · exact .ite (.problem _ _) (.pure _)
  · exact .problem _ _

theorem number_makes (value : Value) : Makes reserved locals (number place value) := by
  unfold number
  split
  · exact .pure _
  · exact .problem _ _

theorem iterable_makes (value : Value) : Makes reserved locals (iterable place value) :=
  .ite (.pure _) (.problem _ _)

theorem function_makes (value : Value) : Makes reserved locals (function place value) :=
  .ite (.pure _) (.problem _ _)

end Arguments

namespace Operator

theorem onNumbers_makes (operator : String) (operation : Number → Number → Except Fault Number)
    (left right : Value) : Makes reserved locals (onNumbers operator operation left right) := by
  unfold onNumbers
  split
  · exact .bind (.lift _) fun _ => .pure _
  · exact .fault _

theorem add_makes (left right : Value) : Makes reserved locals (add left right) := by
  unfold add
  split
  case h_1 | h_3 => exact .pure _
  case h_2 => exact .bind (.ask _) fun items => .newArray items
  case h_4 | h_5 | h_6 => exact .fault _
  case h_7 => exact onNumbers_makes _ _ _ _

theorem repetitions_makes (length : Nat) (isText : Bool) (count : Value) :
    Makes reserved locals (repetitions length isText count) := by
  unfold repetitions
  split
  · refine .ite (.fault _) (.ite (.pure _) ?_)
    exact .ite (.fault _) (.ite (.fault _) (.pure _))
  · exact .fault _

theorem repeatable_makes {value count : Value} {sequence : Value → Eval Value}
    (how : multiply.repeatable? value = some sequence) :
    Makes reserved locals (sequence count) := by
  unfold multiply.repeatable? at how
  split at how <;> cases how
  · exact .bind (repetitions_makes _ _ _) fun _ => .pure _
  · exact .bind (.ask _) fun _ => .bind (repetitions_makes _ _ _) fun _ => .newArray _
  · exact .bind (repetitions_makes _ _ _) fun _ => .pure _

theorem multiply_makes (left right : Value) : Makes reserved locals (multiply left right) := by
  unfold multiply
  split
  · exact .bind (.lift _) fun _ => .pure _
  · split
    · rename_i how
      exact repeatable_makes how
    · rename_i how
      exact repeatable_makes how
    · exact .fault _

theorem modulo_makes (left right : Value) : Makes reserved locals (modulo left right) := by
  unfold modulo
  split
  · exact .bind (.read _) fun _ => .pure _
  · exact onNumbers_makes _ _ _ _

theorem power_makes (left right : Value) : Makes reserved locals (power left right) := by
  unfold power
  split
  · refine .bind (.lift _) fun outcome => ?_
    cases outcome <;> exact .pure _
  · exact .fault _

theorem foldArguments_makes (callee : String) {operation : Value → Value → Eval Value}
    (each : ∀ left right, Makes reserved locals (operation left right)) :
    Makes reserved locals (foldArguments callee operation place arguments) := by
  cases arguments with
  | nil => exact .problem _ _
  | cons first rest => exact .foldlM each

theorem allOrdered_makes (comparison : Comparison) (arguments : List Value) :
    Makes reserved locals (allOrdered comparison arguments) := by
  induction arguments with
  | nil => exact .pure _
  | cons first rest ih =>
      cases rest with
      | nil => exact .pure _
      | cons second others => exact .bind (.read _) fun _ => .ite ih (.pure _)

theorem compareArguments_makes (comparison : Comparison) :
    Makes reserved locals (compareArguments comparison place arguments) :=
  .bind (Arguments.atLeast_makes _ _) fun _ =>
    .bind (allOrdered_makes comparison arguments) fun _ => .pure _

end Operator

/-! ## Members -/

namespace Member

theorem follow_makes (container : Value) (keys : List Value) (last : Option Value) :
    Makes reserved locals (follow container keys last) := by
  induction keys generalizing container last with
  | nil => exact .pure _
  | cons key rest ih => exact .get_bind fun _ => .bind (.lift _) fun next => ih next _

theorem followAndBind_makes (container : Value) (keys : List Value) :
    Makes reserved locals (followAndBind container keys) := by
  refine .bind (follow_makes container keys none) fun ⟨found, last⟩ => ?_
  dsimp only
  split
  · exact .ite (.change fun _ => .newBound _) (.pure _)
  · exact .pure _

theorem writeAttribute_makes (target : Value) (name : String) (value : Value) :
    Makes reserved locals (writeAttribute target name value) := by
  unfold writeAttribute
  split
  · exact .update fun _ => .putAttribute _ name value
  · exact .update fun _ => .renameLibrary _ value
  · exact .update fun _ => .renameForm _ value
  · exact .update fun _ => .modifyClosure _ _
  · exact .update fun _ => .modifyClosure _ _
  · exact .update fun _ => .modifySequence fun _ sequence _ => ⟨rfl, [], .nil sequence.state⟩
  · exact .fault _
  · exact .update fun _ => .putHostAttribute _ name value
  · refine .ite ?_ (.fault _)
    cases target with
    | closure ref => exact .update fun _ => .modifyClosure ref _
    | bound ref => exact .update fun _ => .modifyBound ref _
    | _ => exact .pure _

theorem writeElement_makes (ref : Nat) (key value : Value) :
    Makes reserved locals (writeElement ref key value place) := by
  refine .bind (.lift _) fun index => ?_
  cases index with
  | none => exact .bind (.print _) fun _ => .problem _ _
  | some index =>
      refine .bind (.ask _) fun length => ?_
      refine .ite (.update fun _ => .modifyArray ref _) ?_
      refine .ite (.fault _) ?_
      split
      · exact .update fun _ => .modifyArray ref _
      · exact .fault _

theorem refuse_makes (target key : Value) :
    Makes reserved locals (refuse target key place) :=
  .bind (.print _) fun _ => .bind (.print _) fun _ => .problem _ _

theorem write_makes (target key value : Value)
    (free : ∀ ref, target = .map ref → reserved.entry ref key = false) :
    Makes reserved locals (write target key value place) := by
  unfold write
  split
  · exact .bind (.lift _) fun _ => .update fun _ => .putKey (free _ rfl) value
  · exact writeElement_makes _ key value
  · exact refuse_makes _ _
  · split
    · exact .ite (refuse_makes _ _) (writeAttribute_makes _ _ _)
    · exact refuse_makes _ _

theorem writeAt_changes {session : Session} (ready : session.Ready reserved) (target : Value)
    (path : List Value)
    (free : ∀ ref key, written? session.store target path = some (ref, key) →
      reserved.entry ref key = false) :
    Changes reserved session ((writeAt target place path).runOn session).2 := by
  induction path generalizing target with
  | nil => exact .refl
  | cons key rest ih =>
      have step (longer : rest.length ≠ 1) :
          Changes reserved session ((writeAt target place (key :: rest)).runOn session).2 := by
        have unfolded : writeAt target place (key :: rest) = (do
            let next ← Eval.lift (read (← get).store target key)
            writeAt next place rest) := by
          rcases rest with - | ⟨_, - | _⟩
          · rfl
          · exact absurd rfl longer
          · rfl
        have followed {next : Value} (found : read session.store target key = .ok next) :
            written? session.store target (key :: rest) = written? session.store next rest := by
          rcases rest with - | ⟨_, - | _⟩
          · simp only [written?, found]
          · exact absurd rfl longer
          · simp only [written?, found]
        rw [unfolded, Eval.runOn_get_bind, Eval.runOn_bind]
        cases action : read session.store target key with
        | error fault => exact .refl
        | ok next =>
            exact ih next fun ref key same => free ref key ((followed action).trans same)
      rcases rest with - | ⟨value, - | _⟩
      · exact step (by simp)
      · refine (write_makes target key value fun ref same => ?_).changes ready
        exact free ref key (by rw [same]; rfl)
      · exact step (by simp)

end Member

/-! ## The console, files and host functions -/

namespace Console

theorem line_makes : Makes reserved locals (line arguments) :=
  .bind (.mapM fun _ => .print _) fun _ => .pure _

theorem print_makes : Makes reserved locals (print arguments) :=
  .bind line_makes fun _ => .bind (.emit _) fun _ => .pure _

theorem call_makes (function : ConsoleFunction) :
    Makes reserved locals (call place arguments function) := by
  cases function with
  | print => exact print_makes
  | error =>
      exact .bind line_makes fun _ => .bind (.log _ _ _) fun _ => .bind (.emit _) fun _ => .pure _

end Console

namespace Files
open Arguments

theorem resolve_makes (text : String) : Makes reserved locals (resolve text) :=
  .get_bind fun _ => .lift _

theorem onlyPath_makes (callee : String) :
    Makes reserved locals (onlyPath callee place arguments) :=
  .bind (one_makes callee) fun _ => .bind (nonEmptyString_makes _) fun text => resolve_makes text

theorem pathAndText_makes (callee : String) :
    Makes reserved locals (pathAndText callee place arguments) :=
  .bind (two_makes callee) fun _ => .bind (nonEmptyString_makes _) fun written =>
    .bind (resolve_makes written) fun _ => .bind (string_makes _) fun _ => .pure _

theorem look_makes (path : Path) : Makes reserved locals (look path) :=
  .get_bind fun _ => .lift _

theorem change_makes (step : FileTree → Except Fault FileTree) :
    Makes reserved locals (change step) :=
  .get_bind fun _ => .bind (.lift _) fun _ => .outside fun _ => ⟨_, _, _, _, rfl⟩

theorem list_makes : Makes reserved locals (list place arguments) := by
  have listed (path : Path) : Makes reserved locals (do
      Eval.newTexts (← Eval.lift ((← get).files.list path path.text))) :=
    .get_bind fun _ => .bind (.lift _) fun texts => .newTexts texts
  unfold list
  split
  · exact .get_bind fun _ => listed _
  · exact .bind (nonEmptyString_makes _) fun text => .bind (resolve_makes text) listed
  · exact .bind (.problem _ _) listed

theorem remove_makes : Makes reserved locals (remove place arguments) := by
  refine .bind (onlyPath_makes _) fun path => .bind (look_makes path) fun found => ?_
  cases found with
  | none => exact .pure _
  | some _ => exact .bind (.outside fun _ => ⟨_, _, _, _, rfl⟩) fun _ => .pure _

theorem enter_makes (text : String) : Makes reserved locals (enter text) := by
  refine .bind (resolve_makes text) fun path => .bind (look_makes path) fun found => ?_
  split
  · exact .fault _
  · exact .fault _
  · exact .bind (.outside fun _ => ⟨_, _, _, _, rfl⟩) fun _ => .pure _

theorem call_makes (function : FileFunction) :
    Makes reserved locals (call place arguments function) := by
  cases function with
  | read => exact .bind (onlyPath_makes _) fun _ => .get_bind fun _ => .bind (.lift _) fun _ => .pure _
  | write | append =>
      exact .bind (pathAndText_makes _) fun _ => .bind (change_makes _) fun _ => .pure _
  | «exists» | isDirectory =>
      exact .bind (onlyPath_makes _) fun path => .bind (look_makes path) fun _ => .pure _
  | list => exact list_makes
  | remove => exact remove_makes

end Files

theorem HostFunction.call_makes (function : HostFunction) :
    Makes reserved locals (function.call arguments) := by
  refine .bind (.lift _) fun _ => ?_
  split
  · exact Operator.add_makes _ _
  · refine .get_bind fun _ => .bind (.lift _) fun greeting => ?_
    exact .bind (Operator.add_makes _ _) fun text => Operator.add_makes _ _
  · exact .bind (.emit _) fun _ => .pure _
  · exact .newArray _
  · exact .get_bind fun _ => .bind (.lift _) fun _ => .pure _
  all_goals first | exact .fault _ | exact .pure _

/-! ## Elements -/

namespace Engine

theorem entryAt_makes (map position size : Nat) :
    Makes reserved locals (entryAt map position size) :=
  .bind (.ask _) fun _ => .guard (.fault _) (.pure _)

theorem next_makes (makes : engine.MakesChanges reserved) (cursor : Cursor) :
    Makes reserved locals (engine.next cursor) := by
  unfold next
  split
  case h_2 => exact .bind (.ask _) fun _ => .pure _
  case h_3 map position size =>
    refine .bind (entryAt_makes map position size) fun entry => ?_
    split
    · exact .pure _
    · exact .bind (.newArray _) fun _ => .pure _
  case h_4 map position size => exact .bind (entryAt_makes map position size) fun _ => .pure _
  case h_9 ref => exact .bind (makes.advance ref) fun _ => .pure _
  all_goals exact .pure _

theorem foldWithin_makes (makes : engine.MakesChanges reserved) {step : α → Value → Eval α}
    (steps : ∀ a v, Makes reserved locals (step a v)) (bound : Nat) (cursor : Cursor)
    (accumulator : α) :
    Makes reserved locals (engine.foldWithin step bound cursor accumulator) := by
  induction bound generalizing cursor accumulator with
  | zero => exact .fault _
  | succ bound ih =>
      refine .bind (next_makes makes cursor) fun found => ?_
      match found with
      | none => exact .pure _
      | some (element, rest) => exact .bind (steps accumulator element) fun a => ih rest a

theorem foldElements_makes (makes : engine.MakesChanges reserved) {step : α → Value → Eval α}
    (steps : ∀ a v, Makes reserved locals (step a v)) (cursor : Cursor) (start : α) :
    Makes reserved locals (engine.foldElements cursor start step) :=
  foldWithin_makes makes steps _ cursor start

theorem collect_makes (makes : engine.MakesChanges reserved) (cursor : Cursor) :
    Makes reserved locals (engine.collect cursor) :=
  foldElements_makes makes (fun _ _ => .pure _) cursor _

theorem collectMap_makes (makes : engine.MakesChanges reserved) {action : Value → Eval Value}
    (each : ∀ item, Makes reserved locals (action item)) (cursor : Cursor) :
    Makes reserved locals (engine.collectMap cursor action) :=
  foldElements_makes makes (fun _ item => .bind (each item) fun _ => .pure _) cursor _

theorem takeElements_makes (makes : engine.MakesChanges reserved) (count : Nat) (cursor : Cursor)
    (found : Array Value) : Makes reserved locals (engine.takeElements count cursor found) := by
  induction count generalizing cursor found with
  | zero => exact .pure _
  | succ count ih =>
      refine .bind (next_makes makes cursor) fun next => ?_
      match next with
      | none => exact .pure _
      | some (element, rest) => exact ih rest _

end Engine

namespace Sorting
variable {less : α → α → Eval Bool} (decides : ∀ a b, Makes reserved locals (less a b))
include decides

theorem ascending_makes (row found : List α) (last : α) :
    Makes reserved locals (ascending less last row found) := by
  induction row generalizing last found with
  | nil => exact .pure _
  | cons x rest ih => exact .bind (decides x last) fun _ => .ite (.pure _) (ih _ _)

theorem descending_makes (row found : List α) (last : α) :
    Makes reserved locals (descending less last row found) := by
  induction row generalizing last found with
  | nil => exact .pure _
  | cons x rest ih => exact .bind (decides x last) fun _ => .ite (ih _ _) (.pure _)

theorem firstRun_makes (row : List α) : Makes reserved locals (firstRun less row) := by
  match row with
  | [] => exact .pure _
  | [x] => exact .pure _
  | x :: y :: rest =>
      exact .bind (decides y x) fun _ =>
        .ite (descending_makes decides _ _ _) (ascending_makes decides _ _ _)

theorem insertionPlace_makes (sorted : Array α) (pivot : α) (low high : Nat) :
    Makes reserved locals (insertionPlace less sorted pivot low high) := by
  induction low, high using insertionPlace.induct sorted with
  | case1 low high bound middle inside ih₁ ih₂ =>
      rw [insertionPlace, dif_pos bound]
      exact .bind (decides _ _) fun _ => .ite ih₁ ih₂
  | case2 low high outside =>
      rw [insertionPlace, dif_neg outside]
      exact .pure _

theorem insertionSort_makes (row : List α) : Makes reserved locals (insertionSort less row) := by
  refine .bind (firstRun_makes decides row) fun ⟨run, rest⟩ => ?_
  refine .bind (.foldlM fun sorted pivot => ?_) fun _ => .pure _
  exact .bind (insertionPlace_makes decides sorted pivot _ _) fun _ => .pure _

theorem merge_makes (first second found : List α) :
    Makes reserved locals (merge less first second found) := by
  induction first, second, found using merge.induct with
  | case1 second found =>
      rw [merge]
      exact .pure _
  | case2 first found filled =>
      rw [merge]
      · exact .pure _
      · exact filled
  | case3 x first y second found ih₁ ih₂ =>
      rw [merge]
      exact .bind (decides y x) fun _ => .ite ih₁ ih₂

theorem sortWithin_makes (cuts : Nat) (row : List α) :
    Makes reserved locals (sortWithin less cuts row) := by
  induction cuts generalizing row with
  | zero => exact insertionSort_makes decides row
  | succ cuts ih =>
      refine .ite (insertionSort_makes decides row) ?_
      exact .bind (ih _) fun _ => .bind (ih _) fun _ => merge_makes decides _ _ _

theorem sort_makes (row : List α) : Makes reserved locals (sort less row) :=
  sortWithin_makes decides _ row

end Sorting

namespace JsonText

theorem checkCircle_makes (within : List Value) (value : Value) :
    Makes reserved locals (checkCircle within value) := .ite (.fault _) (.pure _)

theorem textWithin_makes (makes : engine.MakesChanges reserved) (spacing : Json.Spacing)
    (depth : Nat) (within : List Value) (level : Nat) (value : Value) :
    Makes reserved locals (textWithin engine spacing depth within level value) := by
  induction depth generalizing within level value with
  | zero => exact .throw _
  | succ depth ih =>
      have row (items : List Value) : Makes reserved locals (do
          let parts ← items.mapM (textWithin engine spacing depth (value :: within) (level + 1))
          return Json.bracketed spacing level "[" "]" parts) :=
        .bind (.mapM fun item => ih _ _ item) fun _ => .pure _
      unfold textWithin
      dsimp only
      split
      case h_3 => exact .lift _
      case h_5 => exact row _
      case h_6 => exact .bind (checkCircle_makes _ _) fun _ => .bind (.ask _) fun _ => row _
      case h_7 =>
        refine .bind (checkCircle_makes _ _) fun _ => .bind (.ask _) fun entries => ?_
        refine .bind (.mapM fun entry => ?_) fun _ => .pure _
        exact .bind (.lift _) fun _ => .bind (ih _ _ _) fun _ => .pure _
      case h_8 =>
        refine .bind (checkCircle_makes _ _) fun _ => ?_
        exact .bind (Engine.collect_makes makes _) fun _ => row _
      case h_9 => exact .bind (.print _) fun _ => .pure _
      all_goals exact .pure _

theorem text_makes (makes : engine.MakesChanges reserved) (value indentation : Value) :
    Makes reserved locals (text engine value indentation) := by
  have spaced : Makes reserved locals (spacingOf indentation) := by
    unfold spacingOf
    split
    · exact .pure _
    · exact .pure _
    · exact .bind (Operator.repetitions_makes _ _ _) fun _ => .pure _
  unfold text
  split
  · exact .pure _
  · exact .bind spaced fun spacing => textWithin_makes makes spacing _ _ _ _

end JsonText

/-! ## Functions on strings and sequences -/

namespace Strings
open Arguments

theorem only_makes (callee : String) : Makes reserved locals (only callee place arguments) :=
  .bind (one_makes callee) fun _ => .bind (string_makes _) fun _ => .pure _

theorem pair_makes (callee : String) : Makes reserved locals (pair callee place arguments) :=
  .bind (two_makes callee) fun _ => .bind (string_makes _) fun _ => .bind (string_makes _) fun _ =>
    .pure _

theorem split_makes : Makes reserved locals (split place arguments) := by
  refine .bind (oneOrTwo_makes _) fun ⟨text, given⟩ => .bind (string_makes text) fun text => ?_
  cases given with
  | none => exact .newTexts _
  | some separator => exact .bind (string_makes _) fun _ => .ite (.newTexts _) (.newTexts _)

theorem replace_makes : Makes reserved locals (replace place arguments) :=
  .bind (three_makes _) fun _ => .bind (string_makes _) fun _ => .bind (string_makes _) fun _ =>
    .bind (string_makes _) fun _ => .pure _

theorem call_makes (makes : engine.MakesChanges reserved) (function : StringFunction) :
    Makes reserved locals (call engine place arguments function) := by
  cases function with
  | length | trim | upper | lower => exact .bind (only_makes _) fun _ => .pure _
  | split => exact split_makes
  | replace => exact replace_makes
  | startsWith | endsWith | contains => exact .bind (pair_makes _) fun _ => .pure _
  | concat => exact .bind (.mapM fun _ => .print _) fun _ => .pure _
  | toJson =>
      exact .bind (oneOrTwo_makes _) fun _ => .bind (JsonText.text_makes makes _ _) fun _ => .pure _

end Strings

/-! ## Data from text -/

namespace Store

mutual

theorem ofJson_changes (store : Store) (data : Json) :
    Relation.ReflTransGen (Change reserved) store (store.ofJson data).2 := by
  cases data with
  | null | bool | number | string => exact .refl
  | array items => exact (ofItems_changes store items).tail (.newArray _)
  | object fields => exact (ofEntries_changes store fields).tail (.newMap _)

theorem ofItems_changes (store : Store) (items : List Json) :
    Relation.ReflTransGen (Change reserved) store (ofJson.ofItems store items).2 := by
  cases items with
  | nil => exact .refl
  | cons item rest => exact (ofJson_changes store item).trans (ofItems_changes _ rest)

theorem ofEntries_changes (store : Store) (fields : List (String × Json)) :
    Relation.ReflTransGen (Change reserved) store (ofJson.ofEntries store fields).2 := by
  cases fields with
  | nil => exact .refl
  | cons field rest =>
      obtain ⟨key, item⟩ := field
      exact (ofJson_changes store item).trans (ofEntries_changes _ rest)

end

end Store

namespace Parsing
open Arguments

theorem ofJson_makes (data : Json) :
    Makes reserved locals (Eval.change fun store => store.ofJson data) :=
  fun session _ _ => .ofStore (session.store.ofJson_changes data)

theorem table_makes (makes : engine.MakesChanges reserved) :
    Makes reserved locals (table engine place arguments) := by
  have separated : Makes reserved locals (tableArguments place arguments) := by
    unfold tableArguments
    split
    · exact .pure _
    · exact .bind (string_makes _) fun _ => .pure _
    · exact .problem _ _
  refine .bind separated fun ⟨delimiter, keys, text⟩ => .bind (iterable_makes keys) fun _ => ?_
  refine .bind (string_makes text) fun text => .bind (.ask _) fun cursor => ?_
  refine .bind (Engine.collect_makes makes cursor) fun keys => ?_
  exact .bind (.mapM fun line => .bind (.lift _) fun _ => .newMap _) fun _ => .newArray _

theorem json_makes : Makes reserved locals (json place arguments) := by
  refine .bind (Strings.only_makes _) fun text => ?_
  split
  · exact ofJson_makes _
  · exact .problem _ _
  · exact .fault _
  · exact .throw _

theorem number_makes : Makes reserved locals (number place arguments) := by
  refine .bind (Strings.only_makes _) fun text => ?_
  dsimp only
  split
  · exact .bind (.lift _) fun _ => .pure _
  · exact .problem _ _

theorem call_makes (makes : engine.MakesChanges reserved) (function : ParseFunction) :
    Makes reserved locals (call engine place arguments function) := by
  cases function with
  | words | lines => exact .bind (Strings.only_makes _) fun _ => .newTexts _
  | table => exact table_makes makes
  | json => exact json_makes
  | number => exact number_makes

end Parsing

namespace Sequences
open Arguments

theorem withFunction_makes (callee : String) :
    Makes reserved locals (withFunction callee place arguments) :=
  .bind (two_makes callee) fun _ => .bind (iterable_makes _) fun _ =>
    .bind (function_makes _) fun _ => .pure _

theorem only_makes (callee : String) : Makes reserved locals (only callee place arguments) :=
  .bind (one_makes callee) fun _ => .bind (iterable_makes _) fun _ => .pure _

theorem withCount_makes (callee : String) :
    Makes reserved locals (withCount callee place arguments) :=
  .bind (two_makes callee) fun _ => .bind (iterable_makes _) fun _ =>
    .bind (number_makes _) fun _ => .bind (.lift _) fun _ => .pure _

theorem range_makes : Makes reserved locals (range place arguments) := by
  refine .guard (.problem _ _) (.bind (.mapM number_makes) fun numbers => ?_)
  split
  · exact .guard (.problem _ _) (.newSequence _ _)
  · exact .newSequence _ _
  · exact .newSequence _ _
  · exact .pure _

theorem map_makes (makes : engine.MakesChanges reserved) :
    Makes reserved locals (map engine place arguments) := by
  refine .bind (withFunction_makes _) fun ⟨source, callback⟩ => ?_
  dsimp only
  split
  · exact .newSequence _ _
  · refine .bind (.ask _) fun cursor => .bind ?_ fun results => .newArray results
    exact Engine.collectMap_makes makes (fun item => makes.apply callback [item] place) cursor

theorem flatMap_makes (makes : engine.MakesChanges reserved) :
    Makes reserved locals (flatMap engine place arguments) := by
  refine .bind (withFunction_makes _) fun ⟨source, callback⟩ => ?_
  dsimp only
  split
  · exact .newSequence _ _
  · refine .bind (.ask _) fun cursor => .bind ?_ fun results => .newArray results
    refine Engine.foldElements_makes makes (fun found item => ?_) cursor _
    refine .bind (makes.apply callback [item] place) fun inner => .bind (iterable_makes inner) ?_
    exact fun _ => .bind (.ask _) fun others =>
      Engine.foldElements_makes makes (fun _ _ => .pure _) others found

theorem filter_makes (makes : engine.MakesChanges reserved) :
    Makes reserved locals (filter engine place arguments) := by
  refine .bind (withFunction_makes _) fun ⟨source, callback⟩ => ?_
  dsimp only
  split
  · exact .newSequence _ _
  · refine .bind (.ask _) fun cursor => .bind ?_ fun results => .newArray results
    refine Engine.foldElements_makes makes (fun found item => ?_) cursor _
    refine .bind (makes.apply callback [item] place) fun verdict => ?_
    exact .bind (.ask _) fun _ => .ite (.pure _) (.pure _)

theorem fold_makes (makes : engine.MakesChanges reserved) :
    Makes reserved locals (fold engine place arguments) := by
  refine .bind (three_makes _) fun ⟨source, start, callback⟩ => .bind (iterable_makes _) fun _ => ?_
  refine .bind (function_makes _) fun _ => .bind (.ask _) fun cursor => ?_
  exact Engine.foldElements_makes makes (fun _ _ => makes.apply callback _ place) cursor start

theorem head_makes (makes : engine.MakesChanges reserved) :
    Makes reserved locals (head engine place arguments) := by
  refine .bind (only_makes _) fun source => .bind (.ask _) fun cursor => ?_
  refine .bind (Engine.next_makes makes cursor) fun found => ?_
  match found with
  | some (element, rest) => exact .pure _
  | none => exact .pure _

theorem all_makes (makes : engine.MakesChanges reserved) (source : Value) :
    Makes reserved locals (Sequences.all engine source) :=
  .bind (.ask _) fun cursor => Engine.collect_makes makes cursor

theorem skip_makes (makes : engine.MakesChanges reserved) (label : String) (source : Value)
    (count : Nat) : Makes reserved locals (skip engine label source count) := by
  unfold skip
  split
  · exact .newSequence _ _
  · exact .bind (all_makes makes _) fun _ => .newArray _

theorem take_makes (makes : engine.MakesChanges reserved) :
    Makes reserved locals (take engine place arguments) := by
  refine .bind (withCount_makes _) fun ⟨source, count⟩ => .guard (.fault _) ?_
  refine .bind (.ask _) fun cursor => ?_
  exact .bind (Engine.takeElements_makes makes count cursor _) fun _ => .newArray _

theorem join_makes (makes : engine.MakesChanges reserved) :
    Makes reserved locals (join engine place arguments) := by
  refine .bind (oneOrTwo_makes _) fun ⟨source, given⟩ => .bind (iterable_makes source) fun _ => ?_
  refine .bind (string_makes _) fun separator => .bind (.ask _) fun cursor => ?_
  refine .bind (Engine.foldElements_makes makes (fun _ item => ?_) cursor _) fun _ => .pure _
  exact .bind (.print _) fun _ => .pure _

theorem sort_makes (makes : engine.MakesChanges reserved) :
    Makes reserved locals (sort engine place arguments) := by
  refine .bind (oneOrTwo_makes _) fun ⟨source, given⟩ => .bind (iterable_makes source) fun _ => ?_
  refine .bind (all_makes makes source) fun items => ?_
  cases given with
  | none => exact .bind (Sorting.sort_makes (fun _ _ => .read _) _) fun _ => .newArray _
  | some callback =>
      refine .bind (function_makes callback) fun _ => ?_
      refine .bind (Sorting.sort_makes (fun a b => ?_) _) fun _ => .newArray _
      exact .bind (makes.apply callback [a, b] place) fun _ => .read _

theorem concat_makes (makes : engine.MakesChanges reserved) :
    Makes reserved locals (concat engine place arguments) := by
  refine .bind (.forM iterable_makes) fun _ => ?_
  refine .bind (.foldlM fun found source => ?_) fun items => .newArray items
  exact .bind (all_makes makes source) fun _ => .pure _

theorem call_makes (makes : engine.MakesChanges reserved) (function : ArrayFunction) :
    Makes reserved locals (call engine place arguments function) := by
  cases function with
  | range => exact range_makes
  | «from» => exact .newArray _
  | toArray | init | reverse =>
      exact .bind (only_makes _) fun source => .bind (all_makes makes source) fun _ => .newArray _
  | map => exact map_makes makes
  | flatMap => exact flatMap_makes makes
  | filter => exact filter_makes makes
  | fold => exact fold_makes makes
  | head => exact head_makes makes
  | tail => exact .bind (only_makes _) fun source => skip_makes makes _ source 1
  | last =>
      refine .bind (only_makes _) fun source => .bind (.ask _) fun cursor => ?_
      exact Engine.foldElements_makes makes (fun _ _ => .pure _) cursor _
  | take => exact take_makes makes
  | drop =>
      refine .bind (withCount_makes _) fun ⟨source, count⟩ => ?_
      exact .guard (.fault _) (skip_makes makes _ source count)
  | length =>
      refine .bind (only_makes _) fun source => .bind (.ask _) fun cursor => ?_
      exact .bind (Engine.foldElements_makes makes (fun _ _ => .pure _) cursor _) fun _ => .pure _
  | join => exact join_makes makes
  | sort => exact sort_makes makes
  | concat => exact concat_makes makes

end Sequences

/-! ## Calls -/

namespace Core
open Arguments

theorem apply_makes (makes : engine.MakesChanges reserved) :
    Makes reserved locals (apply engine place arguments) := by
  unfold apply
  split
  · exact makes.apply _ _ place
  · refine .bind (iterable_makes _) fun _ => .bind (.ask _) fun cursor => ?_
    exact .bind (Engine.collect_makes makes cursor) fun elements => makes.apply _ _ place
  · exact .problem _ _

theorem subtract_makes : Makes reserved locals (subtract place arguments) := by
  unfold subtract
  split
  · exact .bind (number_makes _) fun _ => .pure _
  · exact Operator.foldArguments_makes _ fun _ _ => Operator.onNumbers_makes _ _ _ _

theorem call_makes (makes : engine.MakesChanges reserved) {function : CoreFunction}
    (other : function ≠ .set) : Makes reserved locals (call engine place arguments function) := by
  cases function with
  | add => exact Operator.foldArguments_makes _ Operator.add_makes
  | subtract => exact subtract_makes
  | multiply => exact Operator.foldArguments_makes _ Operator.multiply_makes
  | divide => exact Operator.foldArguments_makes _ fun _ _ => Operator.onNumbers_makes _ _ _ _
  | modulo => exact Operator.foldArguments_makes _ Operator.modulo_makes
  | power => exact Operator.foldArguments_makes _ Operator.power_makes
  | equal | notEqual =>
      exact .bind (.bind (two_makes _) fun _ => .read _) fun _ => .pure _
  | less | lessOrEqual | greater | greaterOrEqual => exact Operator.compareArguments_makes _
  | not => exact .bind (one_makes _) fun _ => .bind (.ask _) fun _ => .pure _
  | xor =>
      exact .bind (two_makes _) fun _ => .bind (.ask _) fun _ => .bind (.ask _) fun _ => .pure _
  | isNull =>
      refine .bind (one_makes _) fun value => ?_
      split <;> exact .pure _
  | typeOf => exact .bind (one_makes _) fun _ => .pure _
  | get => exact .bind (atLeast_makes _ _) fun _ => Member.followAndBind_makes _ _
  | set => exact absurd rfl other
  | sequence => exact .pure _
  | echo => exact Console.print_makes
  | apply => exact apply_makes makes
  | changeDirectory =>
      exact .bind (one_makes _) fun _ => .bind (string_makes _) fun text => Files.enter_makes text
  | workingDirectory => exact .bind (empty_makes _) fun _ => .get_bind fun _ => .pure _

/-- What `set` changes is said by its arguments and the session that it is called in. -/
theorem set_changes {session : Session} (ready : session.Ready reserved)
    (free : ∀ ref key, Member.written? session.store (arguments.headD .null) arguments.tail =
      some (ref, key) → reserved.entry ref key = false) :
    Changes reserved session ((set place arguments).runOn session).2 := by
  have written : Changes reserved session ((Member.writeAt (arguments.headD .null) place
      arguments.tail).runOn session).2 := Member.writeAt_changes ready _ _ free
  unfold set atLeast
  split
  · exact .refl
  · show Changes reserved session ((do
      Member.writeAt (arguments.headD .null) place arguments.tail
      return arguments.headD .null : Eval Value).runOn session).2
    rw [Eval.runOn_bind]
    split <;> rename_i outcome <;> rw [outcome] at written <;> exact written

end Core

theorem SessionCommand.call_makes (command : SessionCommand) :
    Makes reserved locals (command.call place arguments) := by
  cases command with
  | exit => exact .bind (.outside fun _ => ⟨_, _, _, _, rfl⟩) fun _ => .pure _
  | clearResults =>
      refine .bind (Arguments.empty_makes _) fun _ => .bind (.step fun _ _ _ => ?_) fun _ => .pure _
      exact .clearResults
  | clearDefinitions =>
      refine .bind (Arguments.empty_makes _) fun _ => .bind (.step fun _ _ _ => ?_) fun _ => .pure _
      exact .clearDefinitions
  | listDefinitions =>
      refine .bind (Arguments.empty_makes _) fun _ => .get_bind fun session => ?_
      exact .bind (.forIn fun _ => .bind (.emit _) fun _ => .pure _) fun _ => .pure _

theorem LibraryFunction.call_makes (makes : engine.MakesChanges reserved)
    {function : LibraryFunction} (other : function ≠ .core .set) :
    Makes reserved locals (function.call engine place arguments) := by
  cases function with
  | core function => exact Core.call_makes makes fun same => other (congrArg _ same)
  | array function => exact Sequences.call_makes makes function
  | string function => exact Strings.call_makes makes function
  | parse function => exact Parsing.call_makes makes function
  | console function => exact Console.call_makes function
  | file function => exact Files.call_makes function
  | session command => exact command.call_makes

end ShellLisp
