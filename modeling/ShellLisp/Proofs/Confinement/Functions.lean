import ShellLisp.Library.Console
import ShellLisp.Library.Files
import ShellLisp.Proofs.Confinement.Queries

/-!
# Confined library functions

The library functions that do not call back into the evaluator. Given values of a region they stay
in the region.
-/

namespace ShellLisp
open Region

variable {R : Region} {place : Location} {arguments : List Value}

namespace Arguments

theorem one_confined {callee : String} (all : R.values arguments) :
    R.Confines (one callee place arguments) R.value := by
  unfold one
  split
  · exact .pure (all _ List.mem_cons_self)
  · exact .problem _ _

theorem two_confined {callee : String} (all : R.values arguments) :
    R.Confines (two callee place arguments) fun found => R.value found.1 ∧ R.value found.2 := by
  unfold two
  split
  · exact .pure ⟨all _ (by simp), all _ (by simp)⟩
  · exact .problem _ _

theorem three_confined {callee : String} (all : R.values arguments) :
    R.Confines (three callee place arguments) fun found =>
      R.value found.1 ∧ R.value found.2.1 ∧ R.value found.2.2 := by
  unfold three
  split
  · exact .pure ⟨all _ (by simp), all _ (by simp), all _ (by simp)⟩
  · exact .problem _ _

theorem empty_confined {callee : String} :
    R.Confines (empty callee place arguments) fun _ => True := by
  unfold empty
  split
  · exact .pure trivial
  · exact .problem _ _

theorem oneOrTwo_confined {callee : String} (all : R.values arguments) :
    R.Confines (oneOrTwo callee place arguments) fun found =>
      R.value found.1 ∧ R.optional found.2 := by
  unfold oneOrTwo
  split
  · exact .pure ⟨all _ (by simp), fun v found => nomatch found⟩
  · exact .pure ⟨all _ (by simp), fun v found => by cases found; exact all _ (by simp)⟩
  · exact .problem _ _

theorem atLeast_confined {callee : String} {least : Nat} :
    R.Confines (atLeast callee least place arguments) fun _ => True :=
  .ite (fun _ => .problem _ _) fun _ => .pure trivial

theorem string_confined (value : Value) : R.Confines (string place value) fun _ => True := by
  unfold string
  split
  · exact .pure trivial
  · exact .problem _ _

theorem nonEmptyString_confined (value : Value) :
    R.Confines (nonEmptyString place value) fun _ => True := by
  unfold nonEmptyString
  split
  · exact .ite (fun _ => .problem _ _) fun _ => .pure trivial
  · exact .problem _ _

theorem number_confined (value : Value) : R.Confines (number place value) fun _ => True := by
  unfold number
  split
  · exact .pure trivial
  · exact .problem _ _

theorem iterable_confined (value : Value) : R.Confines (iterable place value) fun _ => True :=
  .ite (fun _ => .pure trivial) fun _ => .problem _ _

theorem function_confined (value : Value) : R.Confines (function place value) fun _ => True :=
  .ite (fun _ => .pure trivial) fun _ => .problem _ _

end Arguments

namespace Operator

theorem numeric_confined (outcome : Except Fault Number) :
    R.Confines (numeric outcome) R.value :=
  .bind (.lift fun _ _ => trivial) fun n _ => .pure (R.number n)

theorem onNumbers_confined (operator : String)
    (operation : Number → Number → Except Fault Number) (left right : Value) :
    R.Confines (onNumbers operator operation left right) R.value := by
  unfold onNumbers
  split
  · exact numeric_confined _
  · exact .fault _

theorem add_confined {left right : Value} (insideLeft : R.value left)
    (insideRight : R.value right) : R.Confines (add left right) R.value := by
  unfold add
  split
  · exact .pure (R.string _)
  · refine .bind (.ask (fun _ _ => rfl) fun store closed => ?_) fun items all => .newArray all
    rw [Array.toList_append]
    exact values_append (closed.array insideLeft) (closed.array insideRight)
  · exact .pure ((R.tuple _).mpr (values_append ((R.tuple _).mp insideLeft)
      ((R.tuple _).mp insideRight)))
  · exact .fault _
  · exact .fault _
  · exact .fault _
  · exact onNumbers_confined _ _ _ _

theorem repetitions_confined (length : Nat) (isText : Bool) (count : Value) :
    R.Confines (repetitions length isText count) fun _ => True := by
  unfold repetitions
  split
  · refine .ite (fun _ => .fault _) fun _ => .ite (fun _ => .pure trivial) fun _ => ?_
    exact .ite (fun _ => .fault _) fun _ => .ite (fun _ => .fault _) fun _ => .pure trivial
  · exact .fault _

theorem values_repeated {items : List Value} (all : R.values items) (count : Nat) :
    R.values (repeated items count) := by
  intro item member
  obtain ⟨row, there, inside⟩ := List.mem_flatten.mp member
  exact all item (List.eq_of_mem_replicate there ▸ inside)

theorem repeatable_confined {value count : Value} {sequence : Value → Eval Value}
    (inside : R.value value) (how : multiply.repeatable? value = some sequence) :
    R.Confines (sequence count) R.value := by
  unfold multiply.repeatable? at how
  split at how
  · cases how
    exact .bind (repetitions_confined _ _ _) fun _ _ => .pure (R.string _)
  · cases how
    refine .bind (.array inside) fun items all => ?_
    refine .bind (repetitions_confined _ _ _) fun times _ => .newArray ?_
    exact values_repeated all times
  · cases how
    refine .bind (repetitions_confined _ _ _) fun times _ => .pure ((R.tuple _).mpr ?_)
    exact values_repeated ((R.tuple _).mp inside) times
  · cases how

theorem multiply_confined {left right : Value} (insideLeft : R.value left)
    (insideRight : R.value right) : R.Confines (multiply left right) R.value := by
  unfold multiply
  split
  · exact numeric_confined _
  · split
    · rename_i how
      exact repeatable_confined insideLeft how
    · rename_i how
      exact repeatable_confined insideRight how
    · exact .fault _

theorem modulo_confined (left right : Value) : R.Confines (modulo left right) R.value := by
  unfold modulo
  split
  · refine .bind (.read (fun store scopes => ?_) fun _ _ _ _ => trivial) fun text _ =>
      .pure (R.string _)
    exact Template.fill_withScopes store scopes _ _
  · exact onNumbers_confined _ _ _ _

theorem power_confined (left right : Value) : R.Confines (power left right) R.value := by
  unfold power
  split
  · refine .bind (.lift fun _ _ => trivial) fun outcome _ => ?_
    cases outcome with
    | some n => exact .pure (R.number n)
    | none => exact .pure R.complex
  · exact .fault _

theorem foldArguments_confined {callee : String} {operation : Value → Value → Eval Value}
    (each : ∀ left right, R.value left → R.value right → R.Confines (operation left right) R.value)
    (all : R.values arguments) :
    R.Confines (foldArguments callee operation place arguments) R.value := by
  cases arguments with
  | nil => exact .problem _ _
  | cons first rest =>
      refine .foldlM (all first List.mem_cons_self) fun found item member inside => ?_
      exact each found item inside (all item (List.mem_cons_of_mem _ member))

theorem allOrdered_confined (comparison : Comparison) (arguments : List Value) :
    R.Confines (allOrdered comparison arguments) fun _ => True := by
  induction arguments with
  | nil => exact .pure trivial
  | cons first rest ih =>
      cases rest with
      | nil => exact .pure trivial
      | cons second others =>
          refine .bind (.compared comparison first second) fun ordered _ => ?_
          exact .ite (fun _ => ih) fun _ => .pure trivial

theorem compareArguments_confined (comparison : Comparison) :
    R.Confines (compareArguments comparison place arguments) R.value := by
  refine .bind Arguments.atLeast_confined fun _ _ => ?_
  exact .bind (allOrdered_confined comparison arguments) fun _ _ => .pure (R.bool _)

end Operator

namespace Member

theorem follow_confined {container : Value} (inside : R.value container) (keys : List Value)
    {last : Option Value} (former : R.optional last) :
    R.Confines (follow container keys last) fun found =>
      R.value found.1 ∧ R.optional found.2 := by
  induction keys generalizing container last with
  | nil => exact .pure ⟨inside, former⟩
  | cons key rest ih =>
      refine .store_lift (fun store => read store container key) (fun _ _ => rfl)
        fun store next closed returned => ?_
      refine ih (closed.read inside returned) fun v same => ?_
      cases same
      exact inside

theorem followAndBind_confined {container : Value} (inside : R.value container)
    (keys : List Value) : R.Confines (followAndBind container keys) R.value := by
  refine .bind (follow_confined inside keys fun v found => nomatch found) fun ⟨found, last⟩ => ?_
  rintro ⟨reached, former⟩
  dsimp only at reached former ⊢
  split
  · exact .ite (fun _ => .change (.newBound ⟨former _ rfl, values_nil⟩)) fun _ => .pure reached
  · exact .pure reached

theorem writeAttribute_confined (target : Value) (name : String) {value : Value}
    (inside : R.value value) : R.Confines (writeAttribute target name value) fun _ => True := by
  unfold writeAttribute
  split
  · exact .update (fun _ _ => rfl) (fun _ => rfl) fun _ closed => closed.putAttribute _ _ inside
  · exact .update (fun _ _ => rfl) (fun _ => rfl) fun _ closed => closed.renameLibrary _ inside
  · exact .update (fun _ _ => rfl) (fun _ => rfl) fun _ closed => closed.renameForm _ inside
  · exact .update (fun _ _ => rfl) (fun _ => rfl) fun _ closed =>
      closed.modifyClosure _ fun _ former => { former with name := inside }
  · exact .update (fun _ _ => rfl) (fun _ => rfl) fun _ closed =>
      closed.modifyClosure _ fun _ former => { former with parameters := inside }
  · exact .update (fun _ _ => rfl) (fun _ => rfl) fun _ closed =>
      closed.modifySequence _ fun _ former => { former with label := inside }
  · exact .fault _
  · exact .update (fun _ _ => rfl) (fun _ => rfl) fun _ closed =>
      closed.putHostAttribute _ _ inside
  · refine .ite (fun _ => ?_) fun _ => .fault _
    exact .update (fun _ _ => by cases target <;> rfl) (fun _ => by cases target <;> rfl)
      fun _ closed => closed.replacePart target name inside

theorem writeElement_confined (ref : Nat) (key : Value) {value : Value} (inside : R.value value) :
    R.Confines (writeElement ref key value place) fun _ => True := by
  refine .bind (.lift fun _ _ => trivial) fun index _ => ?_
  cases index with
  | none => exact .bind (.print key) fun _ _ => .problem _ _
  | some index =>
      refine .bind (.ask (fun _ _ => rfl) fun _ _ => trivial) fun length (_ : True) => ?_
      refine .ite (fun _ => ?_) fun _ => .ite (fun _ => .fault _) fun _ => ?_
      · refine .update (fun _ _ => rfl) (fun _ => rfl) fun _ closed =>
          closed.modifyArray ref fun items all => ?_
        rw [Array.toList_push]
        exact values_append all (values_cons.mpr ⟨inside, values_nil⟩)
      · split
        · refine .update (fun _ _ => rfl) (fun _ => rfl) fun _ closed =>
            closed.modifyArray ref fun items all => ?_
          rw [Array.toList_setIfInBounds]
          exact fun item member => (List.mem_or_eq_of_mem_set member).elim (all item)
            fun same => same ▸ inside
        · exact .fault _

theorem refuse_confined (target key : Value) :
    R.Confines (refuse target key place) fun _ => True :=
  .bind (.print key) fun _ _ => .bind (.print target) fun _ _ => .problem _ _

theorem write_confined (target : Value) {key value : Value} (insideKey : R.value key)
    (insideValue : R.value value) : R.Confines (write target key value place) fun _ => True := by
  unfold write
  split
  · refine .bind (.lift fun _ _ => trivial) fun _ _ => ?_
    exact .update (fun _ _ => rfl) (fun _ => rfl) fun _ closed =>
      closed.putKey _ insideKey insideValue
  · exact writeElement_confined _ key insideValue
  · exact refuse_confined _ _
  · split
    · exact .ite (fun _ => refuse_confined _ _) fun _ => writeAttribute_confined _ _ insideValue
    · exact refuse_confined _ _

theorem writeAt_confined {target : Value} (inside : R.value target) {path : List Value}
    (all : R.values path) : R.Confines (writeAt target place path) fun _ => True := by
  induction path generalizing target with
  | nil => exact .pure trivial
  | cons key rest ih =>
      obtain ⟨insideKey, others⟩ := values_cons.mp all
      have step : R.Confines (do
          let next ← Eval.lift (read (← get).store target key)
          writeAt next place rest) fun _ => True :=
        .store_lift (fun store => read store target key) (fun _ _ => rfl)
          fun _ next closed returned => ih (closed.read inside returned) others
      match rest with
      | [value] => exact write_confined target insideKey (others value List.mem_cons_self)
      | [] => exact step
      | _ :: _ :: _ => exact step

end Member

namespace Console

theorem line_confined : R.Confines (line arguments) fun _ => True :=
  .bind (.mapM fun value _ => .print value) fun _ _ => .pure trivial

theorem print_confined : R.Confines (print arguments) R.value :=
  .bind line_confined fun _ _ => .bind (.emit _) fun _ _ => .pure R.null

theorem call_confined (function : ConsoleFunction) :
    R.Confines (call place arguments function) R.value := by
  cases function with
  | print => exact print_confined
  | error =>
      refine .bind line_confined fun _ _ => .bind (.log _ _ _) fun _ _ => ?_
      exact .bind (.emit _) fun _ _ => .pure R.null

end Console

namespace Files

theorem resolve_confined (text : String) : R.Confines (resolve text) fun _ => True :=
  .get_bind (fun _ _ => rfl) fun _ _ => .lift fun _ _ => trivial

theorem onlyPath_confined {callee : String} (all : R.values arguments) :
    R.Confines (onlyPath callee place arguments) fun _ => True :=
  .bind (Arguments.one_confined all) fun path _ =>
    .bind (Arguments.nonEmptyString_confined path) fun text _ => resolve_confined text

theorem pathAndText_confined {callee : String} (all : R.values arguments) :
    R.Confines (pathAndText callee place arguments) fun _ => True := by
  refine .bind (Arguments.two_confined all) fun ⟨path, text⟩ _ => ?_
  refine .bind (Arguments.nonEmptyString_confined path) fun written _ => ?_
  refine .bind (resolve_confined written) fun path _ => ?_
  exact .bind (Arguments.string_confined text) fun _ _ => .pure trivial

theorem look_confined (path : Path) : R.Confines (look path) fun _ => True :=
  .get_bind (fun _ _ => rfl) fun _ _ => .lift fun _ _ => trivial

theorem change_confined (step : FileTree → Except Fault FileTree) :
    R.Confines (change step) fun _ => True :=
  .session_lift (fun _ _ => rfl) fun _ =>
    .keepingStore (fun _ _ => rfl) (fun _ => rfl) (fun _ => rfl) fun _ => rfl

theorem list_confined : R.Confines (list place arguments) R.value := by
  have listed (path : Path) : R.Confines (do
      Eval.newTexts (← Eval.lift ((← get).files.list path path.text))) R.value :=
    .session_lift (fun _ _ => rfl) fun texts => .newTexts texts
  unfold list
  split
  · exact .get_bind (fun _ _ => rfl) fun _ _ => listed _
  · rename_i path
    refine .bind (Arguments.nonEmptyString_confined path) fun text _ => ?_
    exact .bind (resolve_confined text) fun path _ => listed path
  · exact .bind (.problem _ _) fun path (_ : True) => listed path

theorem remove_confined (all : R.values arguments) :
    R.Confines (remove place arguments) R.value := by
  refine .bind (onlyPath_confined all) fun path _ => ?_
  refine .bind (look_confined path) fun found _ => ?_
  cases found with
  | none => exact .pure (R.bool false)
  | some _ =>
      refine .bind (.keepingStore (fun _ _ => rfl) (fun _ => rfl) (fun _ => rfl)
        fun _ => rfl) fun _ _ => ?_
      exact .pure (R.bool true)

theorem enter_confined (text : String) : R.Confines (enter text) R.value := by
  refine .bind (resolve_confined text) fun path _ => ?_
  refine .bind (look_confined path) fun found _ => ?_
  split
  · exact .fault _
  · exact .fault _
  · refine .bind (.keepingStore (fun _ _ => rfl) (fun _ => rfl) (fun _ => rfl)
      fun _ => rfl) fun _ _ => ?_
    exact .pure (R.string _)

theorem call_confined (all : R.values arguments) (function : FileFunction) :
    R.Confines (call place arguments function) R.value := by
  cases function with
  | read =>
      refine .bind (onlyPath_confined all) fun path _ => ?_
      exact .session_lift (fun _ _ => rfl) fun _ => .pure (R.string _)
  | write | append =>
      refine .bind (pathAndText_confined all) fun ⟨path, bytes⟩ _ => ?_
      exact .bind (change_confined _) fun _ _ => .pure (R.string _)
  | «exists» | isDirectory =>
      refine .bind (onlyPath_confined all) fun path _ => ?_
      exact .bind (look_confined path) fun _ _ => .pure (R.bool _)
  | list => exact list_confined
  | remove => exact remove_confined all

end Files

namespace HostFunction

theorem call_confined (function : HostFunction) (all : R.values arguments) :
    R.Confines (function.call arguments) R.value := by
  refine .bind (.lift fun _ _ => trivial) fun _ _ => ?_
  split
  · exact Operator.add_confined (all _ (by simp)) (all _ (by simp))
  · rename_i receiver name
    refine .store_lift (fun store => keyed store receiver "greeting") (fun _ _ => rfl)
      fun store greeting closed returned => ?_
    have inside := closed.keyed (all receiver (by simp)) returned
    refine .bind (Operator.add_confined inside (R.string _)) fun text holds => ?_
    exact Operator.add_confined holds (all name (by simp))
  · exact .bind (.emit _) fun _ _ => .pure (all _ (by simp))
  · exact .newArray all
  · rename_i value
    exact .store_lift (fun store => length store value) (fun _ _ => rfl) fun _ _ _ _ =>
      .pure (R.number _)
  · exact .fault _
  · exact .fault _
  · exact .fault _
  · exact .fault _
  · exact .fault _
  · exact .fault _
  · exact .pure R.null

end HostFunction

end ShellLisp
