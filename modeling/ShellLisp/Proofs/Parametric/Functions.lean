import ShellLisp.Library.Console
import ShellLisp.Library.Files
import ShellLisp.Library.Host
import ShellLisp.Library.Members
import ShellLisp.Proofs.Parametric.Actions

/-!
# Library functions under any relation

The library functions that do not call back into the evaluator are related to themselves by every
congruence: no value is printed, compared, read or written by way of what is hidden.
-/

namespace ShellLisp

namespace Store
variable (store : Store) (hidden : Hidden)

theorem literalWithin_withHidden (depth : Nat) :
    (store.withHidden hidden).literalWithin depth = store.literalWithin depth := by
  induction depth with
  | zero => rfl
  | succ depth ih =>
      funext within value
      cases value with
      | closure ref =>
          simp only [literalWithin, ih, getElem?_withHidden]
          cases store.closures[ref]? <;> rfl
      | host function => cases function <;> rfl
      | _ => simp only [literalWithin, ih] <;> rfl

theorem literal_withHidden (value : Value) :
    (store.withHidden hidden).literal value = store.literal value := by
  rw [literal, literalWithin_withHidden]
  rfl

theorem shown_withHidden (value : Value) :
    (store.withHidden hidden).shown value = store.shown value := by
  cases value
  case string => rfl
  all_goals exact literal_withHidden store hidden _

theorem leafText_withHidden : leafText (store.withHidden hidden) = leafText store := by
  funext quoted value
  cases value
  case null | bool | number | string | host => rfl
  all_goals exact literal_withHidden store hidden _

theorem textWithin_withHidden (leaf : Bool → Value → Except Failure String) (depth : Nat) :
    (store.withHidden hidden).textWithin leaf depth = store.textWithin leaf depth := by
  induction depth with
  | zero => rfl
  | succ depth ih =>
      funext quoted value
      simp only [textWithin, ih]
      rfl

theorem text_withHidden (quoted : Bool) (value : Value) :
    (store.withHidden hidden).text quoted value = store.text quoted value := by
  rw [text, leafText_withHidden, textWithin_withHidden]
  rfl

theorem usedUp?_withHidden (value : Value) :
    (store.withHidden hidden).usedUp? value = store.usedUp? value := by
  cases value with
  | closure ref =>
      have shown : (store.withHidden hidden).shown = store.shown :=
        funext (store.shown_withHidden hidden)
      simp only [usedUp?, printedParameters?, functionLabel, shown, getElem?_withHidden]
      cases store.closures[ref]? <;> rfl
  | _ => rfl

theorem equalWithin_withHidden (depth : Nat) :
    (store.withHidden hidden).equalWithin depth = store.equalWithin depth := by
  induction depth with
  | zero => rfl
  | succ depth ih =>
      funext left right
      simp only [equalWithin, ih]
      rfl

theorem equal_withHidden (left right : Value) :
    (store.withHidden hidden).equal left right = store.equal left right := by
  simp only [equal, equalWithin_withHidden]

theorem firstDifference_withHidden :
    (store.withHidden hidden).firstDifference = store.firstDifference := by
  funext left right
  induction left generalizing right with
  | nil => rfl
  | cons first rest ih =>
      cases right with
      | nil => rfl
      | cons other others =>
          simp only [firstDifference, equalElements, equalWithin_withHidden, ih]

theorem compareWithin_withHidden (comparison : Comparison) (depth : Nat) :
    (store.withHidden hidden).compareWithin comparison depth =
      store.compareWithin comparison depth := by
  induction depth with
  | zero => rfl
  | succ depth ih =>
      funext left right
      simp only [compareWithin, ih, firstDifference_withHidden]
      rfl

theorem holds_withHidden (comparison : Comparison) (left right : Value) :
    (store.withHidden hidden).holds comparison left right = store.holds comparison left right := by
  rw [holds, compareWithin_withHidden]
  rfl

theorem replacedParts_withHidden (function : Value) :
    (store.withHidden hidden).replacedParts function = store.replacedParts function := by
  cases function with
  | closure ref =>
      simp only [replacedParts, getElem?_withHidden, Option.map_map]
      rfl
  | _ => rfl

theorem member_withHidden (container key : Value) :
    Member.read (store.withHidden hidden) container key = Member.read store container key := by
  cases container with
  | closure ref =>
      simp only [Member.read, Member.replacedPart?, replacedParts_withHidden, Member.attributeOf,
        getElem?_withHidden, Option.map_map]
      rfl
  | number n => cases n <;> rfl
  | _ => rfl

end Store

namespace Template
variable (store : Store) (hidden : Hidden)

theorem fillWithin_withHidden (length bound : Nat) (supply : Supply) (text : List Char) :
    fillWithin (store.withHidden hidden) length bound supply text =
      fillWithin store length bound supply text := by
  have place (supply : Supply) (text : List Char) :
      fillPlace (store.withHidden hidden) length supply text =
        fillPlace store length supply text := by
    simp only [fillPlace, Place.fill, Store.shown_withHidden, Store.literal_withHidden]
    rfl
  induction bound, supply, text using fillWithin.induct with
  | case1 supply text => rfl
  | case2 bound supply => rfl
  | case3 bound supply rest ih => simp only [fillWithin, ih]
  | case4 bound supply rest different ih => simp only [fillWithin, place, ih]
  | case5 bound supply c rest first second ih => simp only [fillWithin, ih]

theorem fill_withHidden (template : String) (value : Value) :
    fill (store.withHidden hidden) template value = fill store template value := by
  simp only [fill, fillWithin_withHidden]

end Template

namespace Congruence
variable (C : Congruence)

theorem setState (ref : Nat) (state : SequenceState) :
    C.rel (LazySequence.setState ref state) (LazySequence.setState ref state) :=
  C.update (.of_surroundings (fun _ _ => rfl) fun _ => rfl)

theorem print (value : Value) : C.rel (Eval.print value) (Eval.print value) := by
  refine C.get_bind fun session hidden => ?_
  rw [show (session.withHidden hidden).store = session.store.withHidden hidden from rfl,
    Store.usedUp?_withHidden]
  split
  · exact C.read fun store hidden => store.text_withHidden hidden false value
  · exact C.bind (C.setState _ _) fun _ => C.read fun _ _ => rfl

theorem compared (comparison : Comparison) (left right : Value) :
    C.rel (Eval.read fun store => store.holds comparison left right)
      (Eval.read fun store => store.holds comparison left right) :=
  C.read fun store hidden => store.holds_withHidden hidden comparison left right

theorem truthy (value : Value) :
    C.rel (Eval.ask fun store => store.truthy value)
      (Eval.ask fun store => store.truthy value) :=
  C.ask fun _ _ => by cases value <;> rfl

end Congruence

variable {C : Congruence} {place place' : Location} (agree : C.placed place place')
variable {arguments : List Value}

namespace Arguments
include agree

theorem one_related {callee : String} :
    C.rel (one callee place arguments) (one callee place' arguments) := by
  unfold one
  split
  · exact C.pure _
  · exact C.problem agree _

theorem two_related {callee : String} :
    C.rel (two callee place arguments) (two callee place' arguments) := by
  unfold two
  split
  · exact C.pure _
  · exact C.problem agree _

theorem three_related {callee : String} :
    C.rel (three callee place arguments) (three callee place' arguments) := by
  unfold three
  split
  · exact C.pure _
  · exact C.problem agree _

theorem empty_related {callee : String} :
    C.rel (empty callee place arguments) (empty callee place' arguments) := by
  unfold empty
  split
  · exact C.pure _
  · exact C.problem agree _

theorem oneOrTwo_related {callee : String} :
    C.rel (oneOrTwo callee place arguments) (oneOrTwo callee place' arguments) := by
  unfold oneOrTwo
  split
  · exact C.pure _
  · exact C.pure _
  · exact C.problem agree _

theorem atLeast_related {callee : String} {least : Nat} :
    C.rel (atLeast callee least place arguments) (atLeast callee least place' arguments) :=
  C.ite (fun _ => C.problem agree _) fun _ => C.pure _

theorem string_related (value : Value) : C.rel (string place value) (string place' value) := by
  unfold string
  split
  · exact C.pure _
  · exact C.problem agree _

theorem nonEmptyString_related (value : Value) :
    C.rel (nonEmptyString place value) (nonEmptyString place' value) := by
  unfold nonEmptyString
  split
  · exact C.ite (fun _ => C.problem agree _) fun _ => C.pure _
  · exact C.problem agree _

theorem number_related (value : Value) : C.rel (number place value) (number place' value) := by
  unfold number
  split
  · exact C.pure _
  · exact C.problem agree _

theorem iterable_related (value : Value) : C.rel (iterable place value) (iterable place' value) :=
  C.ite (fun _ => C.pure _) fun _ => C.problem agree _

theorem function_related (value : Value) : C.rel (function place value) (function place' value) :=
  C.ite (fun _ => C.pure _) fun _ => C.problem agree _

end Arguments

namespace Operator

theorem onNumbers_related (operator : String)
    (operation : Number → Number → Except Fault Number) (left right : Value) :
    C.rel (onNumbers operator operation left right) (onNumbers operator operation left right) := by
  unfold onNumbers
  split
  · exact C.bind (C.lift _) fun n => C.pure _
  · exact C.fault _

theorem add_related (left right : Value) : C.rel (add left right) (add left right) := by
  unfold add
  split
  · exact C.pure _
  · exact C.bind (C.ask fun _ _ => rfl) fun items => C.newArray items
  · exact C.pure _
  · exact C.fault _
  · exact C.fault _
  · exact C.fault _
  · exact onNumbers_related _ _ _ _

theorem repetitions_related (length : Nat) (isText : Bool) (count : Value) :
    C.rel (repetitions length isText count) (repetitions length isText count) := by
  unfold repetitions
  split
  · refine C.ite (fun _ => C.fault _) fun _ => C.ite (fun _ => C.pure _) fun _ => ?_
    exact C.ite (fun _ => C.fault _) fun _ => C.ite (fun _ => C.fault _) fun _ => C.pure _
  · exact C.fault _

theorem repeatable_related {value count : Value} {sequence : Value → Eval Value}
    (how : multiply.repeatable? value = some sequence) :
    C.rel (sequence count) (sequence count) := by
  unfold multiply.repeatable? at how
  split at how
  · cases how
    exact C.bind (repetitions_related _ _ _) fun _ => C.pure _
  · cases how
    refine C.bind (C.ask fun _ _ => rfl) fun items => ?_
    exact C.bind (repetitions_related _ _ _) fun times => C.newArray _
  · cases how
    exact C.bind (repetitions_related _ _ _) fun times => C.pure _
  · cases how

theorem multiply_related (left right : Value) :
    C.rel (multiply left right) (multiply left right) := by
  unfold multiply
  split
  · exact C.bind (C.lift _) fun n => C.pure _
  · split
    · rename_i how
      exact repeatable_related how
    · rename_i how
      exact repeatable_related how
    · exact C.fault _

theorem modulo_related (left right : Value) : C.rel (modulo left right) (modulo left right) := by
  unfold modulo
  split
  · exact C.bind (C.read fun store hidden => Template.fill_withHidden store hidden _ _) fun text =>
      C.pure _
  · exact onNumbers_related _ _ _ _

theorem power_related (left right : Value) : C.rel (power left right) (power left right) := by
  unfold power
  split
  · refine C.bind (C.lift _) fun outcome => ?_
    cases outcome with
    | some n => exact C.pure _
    | none => exact C.pure _
  · exact C.fault _

include agree in
theorem foldArguments_related {callee : String} {operation : Value → Value → Eval Value}
    (each : ∀ left right, C.rel (operation left right) (operation left right)) :
    C.rel (foldArguments callee operation place arguments)
      (foldArguments callee operation place' arguments) := by
  cases arguments with
  | nil => exact C.problem agree _
  | cons first rest => exact C.foldlM each first

include agree in
theorem compareArguments_related (comparison : Comparison) :
    C.rel (compareArguments comparison place arguments)
      (compareArguments comparison place' arguments) := by
  have ordered (arguments : List Value) :
      C.rel (allOrdered comparison arguments) (allOrdered comparison arguments) := by
    induction arguments with
    | nil => exact C.pure _
    | cons first rest ih =>
        cases rest with
        | nil => exact C.pure _
        | cons second others =>
            refine C.bind (C.compared comparison first second) fun holds => ?_
            exact C.ite (fun _ => ih) fun _ => C.pure _
  refine C.bind (Arguments.atLeast_related agree) fun _ => ?_
  exact C.bind (ordered arguments) fun _ => C.pure _

end Operator

namespace Member

theorem follow_related (container : Value) (keys : List Value) (last : Option Value) :
    C.rel (follow container keys last) (follow container keys last) := by
  induction keys generalizing container last with
  | nil => exact C.pure _
  | cons key rest ih =>
      exact C.store_lift (fun store => read store container key)
        (fun store hidden => store.member_withHidden hidden container key) fun next => ih _ _

theorem followAndBind_related (container : Value) (keys : List Value) :
    C.rel (followAndBind container keys) (followAndBind container keys) := by
  refine C.bind (follow_related container keys none) ?_
  rintro ⟨found, last⟩
  dsimp only
  split
  · refine C.ite (fun _ => C.change ?_) fun _ => C.pure _
    exact .of_surroundings (fun _ _ => rfl) fun _ => rfl
  · exact C.pure _

theorem writeAttribute_related (target : Value) (name : String) (value : Value) :
    C.rel (writeAttribute target name value) (writeAttribute target name value) := by
  have shown (ref : Nat) (change : Closure → Closure)
      (apart : ∀ closure body scope,
        change { closure with body, scope } = { change closure with body, scope })
      (same : ∀ closure, (change closure).body = closure.body ∧
        (change closure).scope = closure.scope) :
      C.rel (Eval.update fun store => store.modifyClosure ref change)
        (Eval.update fun store => store.modifyClosure ref change) :=
    C.update (.modifyClosure ref apart same)
  unfold writeAttribute
  split
  · exact C.update (.of_surroundings (fun _ _ => rfl) fun _ => rfl)
  · exact C.update (.renameLibrary _ value)
  · exact C.update (.of_surroundings (fun _ _ => rfl) fun _ => rfl)
  · exact shown _ _ (fun _ _ _ => rfl) fun _ => ⟨rfl, rfl⟩
  · exact shown _ _ (fun _ _ _ => rfl) fun _ => ⟨rfl, rfl⟩
  · exact C.update (.of_surroundings (fun _ _ => rfl) fun _ => rfl)
  · exact C.fault _
  · exact C.update (.of_surroundings (fun _ _ => rfl) fun _ => rfl)
  · refine C.ite (fun _ => ?_) fun _ => C.fault _
    cases target with
    | closure ref => exact shown ref _ (fun _ _ _ => rfl) fun _ => ⟨rfl, rfl⟩
    | _ => exact C.update (.of_surroundings (fun _ _ => rfl) fun _ => rfl)

include agree in
theorem writeElement_related (ref : Nat) (key value : Value) :
    C.rel (writeElement ref key value place) (writeElement ref key value place') := by
  refine C.bind (C.lift _) fun index => ?_
  cases index with
  | none => exact C.bind (C.print key) fun _ => C.problem agree _
  | some index =>
      have writes (change : Array Value → Array Value) :
          C.rel (Eval.update fun store => store.modifyArray ref change)
            (Eval.update fun store => store.modifyArray ref change) :=
        C.update (.of_surroundings (fun _ _ => rfl) fun _ => rfl)
      refine C.bind (C.ask fun _ _ => rfl) fun length => ?_
      refine C.ite (fun _ => writes _) fun _ => C.ite (fun _ => C.fault _) fun _ => ?_
      split
      · exact writes _
      · exact C.fault _

include agree in
theorem refuse_related (target key : Value) :
    C.rel (refuse target key place) (refuse target key place') :=
  C.bind (C.print key) fun _ => C.bind (C.print target) fun _ => C.problem agree _

include agree in
theorem write_related (target key value : Value) :
    C.rel (write target key value place) (write target key value place') := by
  unfold write
  split
  · refine C.bind (C.lift _) fun _ => C.update ?_
    exact .of_surroundings (fun _ _ => rfl) fun _ => rfl
  · exact writeElement_related agree _ key value
  · exact refuse_related agree _ _
  · split
    · exact C.ite (fun _ => refuse_related agree _ _) fun _ => writeAttribute_related _ _ _
    · exact refuse_related agree _ _

include agree in
theorem writeAt_related (target : Value) (path : List Value) :
    C.rel (writeAt target place path) (writeAt target place' path) := by
  induction path generalizing target with
  | nil => exact C.pure _
  | cons key rest ih =>
      have step : C.rel
          (do
            let next ← Eval.lift (read (← get).store target key)
            writeAt next place rest)
          (do
            let next ← Eval.lift (read (← get).store target key)
            writeAt next place' rest) :=
        C.store_lift (fun store => read store target key)
          (fun store hidden => store.member_withHidden hidden target key) ih
      rcases rest with _ | ⟨value, _ | _⟩
      · exact step
      · exact write_related agree target key value
      · exact step

end Member

namespace Console

theorem line_related : C.rel (line arguments) (line arguments) :=
  C.bind (C.mapM fun value => C.print value) fun _ => C.pure _

theorem print_related : C.rel (print arguments) (print arguments) :=
  C.bind line_related fun _ => C.bind (C.emit _) fun _ => C.pure _

include agree in
theorem call_related (function : ConsoleFunction) :
    C.rel (call place arguments function) (call place' arguments function) := by
  cases function with
  | print => exact print_related
  | error =>
      refine C.bind line_related fun text => C.bind (C.reported agree text) fun _ => ?_
      exact C.bind (C.emit _) fun _ => C.pure _

end Console

namespace Files

theorem resolve_related (text : String) : C.rel (resolve text) (resolve text) :=
  C.get_bind fun _ _ => C.lift _

include agree in
theorem onlyPath_related {callee : String} :
    C.rel (onlyPath callee place arguments) (onlyPath callee place' arguments) :=
  C.bind (Arguments.one_related agree) fun path =>
    C.bind (Arguments.nonEmptyString_related agree path) fun text => resolve_related text

include agree in
theorem pathAndText_related {callee : String} :
    C.rel (pathAndText callee place arguments) (pathAndText callee place' arguments) := by
  refine C.bind (Arguments.two_related agree) ?_
  rintro ⟨path, text⟩
  refine C.bind (Arguments.nonEmptyString_related agree path) fun written => ?_
  refine C.bind (resolve_related written) fun path => ?_
  exact C.bind (Arguments.string_related agree text) fun _ => C.pure _

theorem look_related (path : Path) : C.rel (look path) (look path) :=
  C.get_bind fun _ _ => C.lift _

theorem change_related (step : FileTree → Except Fault FileTree) :
    C.rel (change step) (change step) := by
  refine C.get_bind fun session hidden => C.bind (C.lift _) fun files => C.modify ?_
  exact .of_surroundings (fun _ _ => rfl) fun _ => rfl

include agree in
theorem list_related : C.rel (list place arguments) (list place' arguments) := by
  have listed (path : Path) : C.rel
      (do Eval.newTexts (← Eval.lift ((← get).files.list path path.text)))
      (do Eval.newTexts (← Eval.lift ((← get).files.list path path.text))) :=
    C.get_bind fun _ _ => C.bind (C.lift _) fun texts => C.newTexts texts
  unfold list
  split
  · exact C.get_bind fun _ _ => listed _
  · rename_i path
    refine C.bind (Arguments.nonEmptyString_related agree path) fun text => ?_
    exact C.bind (resolve_related text) listed
  · exact C.bind (C.problem agree _) listed

include agree in
theorem remove_related : C.rel (remove place arguments) (remove place' arguments) := by
  refine C.bind (onlyPath_related agree) fun path => C.bind (look_related path) fun found => ?_
  cases found with
  | none => exact C.pure _
  | some _ =>
      refine C.bind (C.modify ?_) fun _ => C.pure _
      exact .of_surroundings (fun _ _ => rfl) fun _ => rfl

theorem enter_related (text : String) : C.rel (enter text) (enter text) := by
  refine C.bind (resolve_related text) fun path => C.bind (look_related path) fun found => ?_
  split
  · exact C.fault _
  · exact C.fault _
  · refine C.bind (C.modify ?_) fun _ => C.pure _
    exact .of_surroundings (fun _ _ => rfl) fun _ => rfl

include agree in
theorem call_related (function : FileFunction) :
    C.rel (call place arguments function) (call place' arguments function) := by
  cases function with
  | read =>
      refine C.bind (onlyPath_related agree) fun path => ?_
      exact C.get_bind fun _ _ => C.bind (C.lift _) fun _ => C.pure _
  | write | append =>
      refine C.bind (pathAndText_related agree) ?_
      rintro ⟨path, hidden⟩
      exact C.bind (change_related _) fun _ => C.pure _
  | «exists» | isDirectory =>
      exact C.bind (onlyPath_related agree) fun path => C.bind (look_related path) fun _ => C.pure _
  | list => exact list_related agree
  | remove => exact remove_related agree

end Files

namespace HostFunction

theorem call_related (function : HostFunction) :
    C.rel (function.call arguments) (function.call arguments) := by
  refine C.bind (C.lift _) fun _ => ?_
  split
  · exact Operator.add_related _ _
  · rename_i receiver name
    refine C.store_lift (fun store => keyed store receiver "greeting") (fun _ _ => ?_)
      fun greeting => ?_
    · cases receiver <;> rfl
    · exact C.bind (Operator.add_related _ _) fun text => Operator.add_related _ _
  · exact C.bind (C.emit _) fun _ => C.pure _
  · exact C.newArray _
  · rename_i value
    refine C.store_lift (fun store => length store value) (fun _ _ => ?_) fun _ => C.pure _
    cases value <;> rfl
  · exact C.fault _
  · exact C.fault _
  · exact C.fault _
  · exact C.fault _
  · exact C.fault _
  · exact C.fault _
  · exact C.pure _

end HostFunction

end ShellLisp
