import ShellLisp.Proofs.Splicing.Forms

/-!
# One level of evaluation in twin sessions

Lazy sequences, calls of functions, external commands and the evaluation of every tree that is not a
sequence: what one level of the evaluator does with them, another one mirrors when the levels below
do.
-/

namespace ShellLisp
open ShellLisp.Expr (Spliced)

variable {like : Expr → Expr → Prop} {first second : Engine} {place : Location} {scope : Nat}
variable {body body' : List Expr} {e e' : Expr} {α : Type}

namespace Apply

theorem bindParameters_mirrored (parameters arguments : List Value) :
    Mirrored like (bindParameters scope parameters arguments) := by
  induction parameters generalizing arguments with
  | nil => exact .pure rfl
  | cons parameter rest ih =>
      cases arguments with
      | nil => exact .pure rfl
      | cons argument others =>
          unfold bindParameters
          split
          · exact .bind (.define scope _ argument) fun _ => ih others
          · exact .bind ((Congruence.mirrors like).lift _) fun _ => ih others

structure SameClosure (like : Expr → Expr → Prop) (found found' : Closure) : Prop where
  parameters : found.parameters = found'.parameters
  body : like found.body found'.body
  scope : found.scope = found'.scope
  name : found.name = found'.name
  replaced : found.replaced = found'.replaced

theorem closureAt_mirrors (ref : Nat) :
    Mirrors like (Option.Rel (SameClosure like)) (Eval.ask fun store => store.closures[ref]?)
      (Eval.ask fun store => store.closures[ref]?) := by
  rintro session _ ⟨bodies, rfl, alike⟩
  refine .returned ?_ ⟨bodies, rfl, alike⟩ (.refl session.store)
  show Option.Rel _ session.store.closures[ref]? (session.store.withBodies bodies).closures[ref]?
  rw [Store.getElem?_withBodies]
  cases found : session.store.closures[ref]? with
  | none => exact .none
  | some closure =>
      refine .some ⟨rfl, alike ref closure.body ?_, rfl, rfl, rfl⟩
      rw [Store.bodyAt?, found]
      rfl

theorem closure_mirrors (coupled : Coupled like first second) {found found' : Closure}
    (same : SameClosure like found found') (arguments : List Value) :
    Mirrors like Eq (closure first found arguments place)
      (closure second found' arguments place) := by
  refine closure_related (C := .mirrors like) rfl same.parameters.symm same.name.symm
    same.replaced.symm ?_
  unfold enter
  rw [same.parameters, same.scope]
  refine Mirrors.bind (.newScope found'.scope) fun inner => ?_
  refine (Congruence.mirrors like).store_lift (fun store => store.fixedElements found'.parameters)
    (fun store hidden => fixedElements_withHidden store hidden _) fun names => ?_
  refine Mirrors.bind (bindParameters_mirrored names arguments) fun _ => ?_
  exact coupled.interpret same.body inner

theorem apply_mirrors (coupled : Coupled like first second) (callee : Value)
    (arguments : List Value) :
    Mirrors like Eq (apply first callee arguments place) (apply second callee arguments place) := by
  refine apply_related coupled.related rfl (.inl rfl) (fun command => command.call_mirrored) ?_
  rintro ref rfl
  refine Mirrors.bindAs (closureAt_mirrors ref) fun found found' same => ?_
  cases same with
  | none => exact .problem _ _
  | some same => exact closure_mirrors coupled same arguments

end Apply

namespace Interpret

theorem values_mirrors (coupled : Coupled Spliced first second)
    (items : List.Forall₂ Spliced body body') :
    Mirrors Spliced Eq (values first scope body) (values second scope body') :=
  .mapM items fun _ _ spliced => coupled.interpret spliced scope

theorem mapEntries_mirrors (coupled : Coupled Spliced first second)
    (items : List.Forall₂ Spliced body body') (found : Entries) :
    Mirrors Spliced Eq (mapEntries first scope body found)
      (mapEntries second scope body' found) := by
  induction body, found using mapEntries.induct generalizing body' with
  | case1 found keyExpr valueExpr rest ih =>
      rcases items with _ | ⟨key, _ | ⟨value, others⟩⟩
      rw [mapEntries, mapEntries, key.place_eq]
      refine .bind (coupled.interpret key scope) fun key => ?_
      refine .bind (coupled.interpret value scope) fun value => ?_
      refine .ite (fun _ => ?_) fun _ => ih key value others
      exact .bind ((Congruence.mirrors Spliced).print key) fun _ => .stop _
  | case2 body found short =>
      rw [mapEntries, mapEntries]
      · exact .pure rfl
      · rintro key value rest rfl
        rcases items with _ | ⟨_, _ | ⟨_, _⟩⟩
        exact short _ _ _ rfl
      · exact short

theorem callValue_mirrors (coupled : Coupled Spliced first second)
    (items : List.Forall₂ Spliced body body') (callee : Value) :
    Mirrors Spliced Eq (callValue first scope place callee body)
      (callValue second scope place callee body') := by
  unfold callValue
  split
  · refine .bind (.ask fun _ _ => rfl) fun found => ?_
    cases found with
    | none => exact .pure rfl
    | some cell => exact Form.call_mirrors coupled items cell.form
  · exact .bind (values_mirrors coupled items) fun arguments => coupled.apply _ arguments place

theorem commandArgument_mirrors (coupled : Coupled Spliced first second)
    (spliced : Spliced e e') :
    Mirrors Spliced Eq (commandArgument first scope e) (commandArgument second scope e') := by
  unfold commandArgument
  rw [spliced.numeralSpelling?_eq]
  split
  · exact .pure rfl
  · refine .bind (coupled.interpret spliced scope) fun value => ?_
    have printed : Mirrors Spliced Eq
        (do
          let texts ← first.foldElements (← Engine.elements value) [] fun found element =>
            return (← Eval.print element) :: found
          return texts.reverse)
        (do
          let texts ← second.foldElements (← Engine.elements value) [] fun found element =>
            return (← Eval.print element) :: found
          return texts.reverse) := by
      refine .bind (Engine.elements_related (C := .mirrors Spliced) value) fun cursor => ?_
      refine .bind (Engine.foldElements_related coupled.related (fun _ item => ?_) cursor _)
        fun _ => ?_
      · exact Mirrors.bind ((Congruence.mirrors Spliced).print item) fun _ => .pure rfl
      · exact .pure rfl
    cases value with
    | array | tuple | sequence => exact printed
    | _ => exact .bind ((Congruence.mirrors Spliced).print _) fun _ => .pure rfl

theorem known_mirrors (head : Spliced e e') :
    Mirrors Spliced Eq (known scope e) (known scope e') := by
  cases head with
  | refl =>
      unfold known
      split
      · exact .lookup scope _
      · exact .pure rfl
  | call | array | map | sequence => exact .pure rfl

theorem callExpression_mirrors (coupled : Coupled Spliced first second) (head : Spliced e e')
    (items : List.Forall₂ Spliced body body') :
    Mirrors Spliced Eq (callExpression first scope place e body)
      (callExpression second scope place e' body') := by
  have called (callee : Value) : Mirrors Spliced Eq (callValue first scope place callee body)
      (callValue second scope place callee body') := callValue_mirrors coupled items callee
  rw [callExpression_eq, callExpression_eq]
  refine .bind (known_mirrors head) fun bound => .ite (fun _ => called bound) fun _ => ?_
  refine .bind (coupled.interpret head scope) fun value => ?_
  split
  · refine .bind (.mapM items fun _ _ spliced => ?_) fun texts =>
      runCommand_related (C := .mirrors Spliced) rfl _ _
    exact commandArgument_mirrors coupled spliced
  · exact .ite (fun _ => called _) fun _ => .problem _ _

theorem call_mirrors (coupled : Coupled Spliced first second)
    (items : List.Forall₂ Spliced body body') :
    Mirrors Spliced Eq (interpret first (.call place body) scope)
      (interpret second (.call place body') scope) := by
  cases items with
  | nil => exact .problem _ _
  | cons head rest => exact callExpression_mirrors coupled head rest

theorem array_mirrors (coupled : Coupled Spliced first second) (place : Location)
    (items : List.Forall₂ Spliced body body') :
    Mirrors Spliced Eq (interpret first (.array place body) scope)
      (interpret second (.array place body') scope) :=
  .bind (values_mirrors coupled items) fun _ => (Congruence.mirrors Spliced).newArray _

theorem map_mirrors (coupled : Coupled Spliced first second) (place : Location)
    (items : List.Forall₂ Spliced body body') :
    Mirrors Spliced Eq (interpret first (.map place body) scope)
      (interpret second (.map place body') scope) :=
  .bind (mapEntries_mirrors coupled items #[]) fun found =>
    (Congruence.mirrors Spliced).newMap found

theorem same_mirrors (coupled : Coupled Spliced first second) (e : Expr) :
    Mirrors Spliced Eq (interpret first e scope) (interpret second e scope) := by
  cases e with
  | call => exact call_mirrors coupled (Spliced.row _)
  | array place body => exact array_mirrors coupled place (Spliced.row body)
  | map place body => exact map_mirrors coupled place (Spliced.row body)
  | value | command => exact .pure rfl
  | «variable» => exact .lookup scope _

end Interpret

namespace Engine

theorem evaluateText_mirrors (coupled : Coupled Spliced first second) (source : String) :
    Mirrors Spliced Eq (evaluateText first source scope) (evaluateText second source scope) := by
  have bounding (place : Option Location) {β : Type} {action action' : Eval β}
      (mirrors : Mirrors Spliced Eq action action') :
      Mirrors Spliced Eq (Eval.boundingDepth place action) (Eval.boundingDepth place action') := by
    refine mirrors.tryCatch (fun failure => ?_) fun failure depth session => ?_
    · cases failure <;> exact .throw _
    · cases failure with
      | tooDeep => exact ⟨_, rfl, rfl⟩
      | problem | fault => exact ⟨_, rfl, depth⟩
  have read : Mirrored Spliced (evaluateText.liftExcept (Expr.read source)) := by
    unfold evaluateText.liftExcept
    split
    · exact .pure rfl
    · exact .throw _
  refine .bind (bounding none read) fun found => ?_
  cases found with
  | none => exact .pure rfl
  | some e => exact bounding _ (coupled.interpret (.refl e) scope)

end Engine

end ShellLisp
