import ShellLisp.Proofs.Widening.Forms

/-!
# Evaluation with one more scope

No engine notices a scope to which nothing leads: whatever it evaluates, the evaluation in the
session follows itself through the widened one.
-/

namespace ShellLisp
open Widening

variable {w : Widening} {base scope : Nat} {place place' : Location} {engine : Engine}
variable {body : List Expr} {arguments : List Value}

namespace Apply

theorem bindParameters_follows (parameters arguments : List Value) :
    w.Follows base (bindParameters scope parameters arguments)
      (bindParameters (w.number scope) parameters arguments) := by
  induction parameters generalizing arguments with
  | nil => exact .pure _
  | cons parameter rest ih =>
      cases arguments with
      | nil => exact .pure _
      | cons argument others =>
          unfold bindParameters
          split
          · exact .bind (.define scope _ argument) fun _ => ih others
          · exact .bind ((w.rules base).lift _) fun _ => ih others

theorem enter_follows (unaffected : engine.Unaffected w) {closure : Closure}
    (present : closure.scope < base) :
    w.Follows base (enter engine closure arguments)
      (enter engine { closure with scope := w.number closure.scope } arguments) := by
  refine .newScope_bind present fun inner _ => ?_
  refine (w.rules _).store_lift (fun store => store.fixedElements closure.parameters)
    (fun store hidden => fixedElements_withHidden store hidden _) fun names => ?_
  refine .bind (bindParameters_follows names arguments) fun _ => ?_
  exact unaffected.interpret closure.body (Nat.lt_succ_self inner)

theorem apply_follows (unaffected : engine.Unaffected w) (agree : w.placed place place')
    (few : place = place' ∨ arguments.length ≤ 1) (callee : Value) :
    w.Follows base (apply engine callee arguments place)
      (apply engine callee arguments place') := by
  refine apply_related (C := w.rules base) unaffected.related agree few
    (fun command => command.call_follows agree) ?_
  rintro ref rfl
  refine .ask_bind fun session other relates _ => ?_
  rw [relates.closure ref]
  cases found : session.store.closures[ref]? with
  | none => exact .throw (.problem agree _)
  | some closure =>
      refine closure_related (C := w.rules _) agree rfl rfl rfl ?_
      exact enter_follows unaffected (relates.whole.closures found)

end Apply

namespace Interpret

theorem values_follows (unaffected : engine.Unaffected w) (present : scope < base) :
    w.Follows base (values engine scope body) (values engine (w.number scope) body) :=
  (w.rules base).mapM fun e => unaffected.interpret e present

theorem mapEntries_follows (unaffected : engine.Unaffected w) (present : scope < base)
    (found : Entries) :
    w.Follows base (mapEntries engine scope body found)
      (mapEntries engine (w.number scope) body found) := by
  induction body, found using mapEntries.induct with
  | case1 keyExpr valueExpr rest found ih =>
      rw [mapEntries, mapEntries]
      refine .bind (unaffected.interpret keyExpr present) fun key => ?_
      refine .bind (unaffected.interpret valueExpr present) fun value => ?_
      refine (w.rules base).ite (fun _ => ?_) fun _ => ih key value
      exact .bind ((w.rules base).print key) fun _ => .throw (.same _)
  | case2 body found short =>
      rw [mapEntries, mapEntries]
      · exact .pure _
      · exact short
      · exact short

theorem callValue_follows (unaffected : engine.Unaffected w) (present : scope < base)
    (callee : Value) :
    w.Follows base (callValue engine scope place callee body)
      (callValue engine (w.number scope) place callee body) := by
  unfold callValue
  split
  · refine .bind ((w.rules base).ask fun _ _ => rfl) fun found => ?_
    cases found with
    | none => exact .pure _
    | some cell => exact Form.call_follows unaffected present cell.form
  · exact .bind (values_follows unaffected present) fun arguments =>
      unaffected.apply (w.here place) (.inl rfl) base

theorem commandArgument_follows (unaffected : engine.Unaffected w) (present : scope < base)
    (e : Expr) :
    w.Follows base (commandArgument engine scope e)
      (commandArgument engine (w.number scope) e) := by
  unfold commandArgument
  split
  · exact .pure _
  · refine .bind (unaffected.interpret e present) fun value => ?_
    have printed : w.Follows base
        (do
          let texts ← engine.foldElements (← Engine.elements value) [] fun found element =>
            return (← Eval.print element) :: found
          return texts.reverse)
        (do
          let texts ← engine.foldElements (← Engine.elements value) [] fun found element =>
            return (← Eval.print element) :: found
          return texts.reverse) := by
      refine .bind (Engine.elements_related (C := w.rules base) value) fun cursor => ?_
      refine .bind (Engine.foldElements_related unaffected.related (fun _ item => ?_) cursor _)
        fun _ => .pure _
      exact Follows.bind ((w.rules base).print item) fun _ => .pure _
    cases value with
    | array | tuple | sequence => exact printed
    | _ => exact .bind ((w.rules base).print _) fun _ => .pure _

theorem callExpression_follows (unaffected : engine.Unaffected w) (present : scope < base)
    (head : Expr) :
    w.Follows base (callExpression engine scope place head body)
      (callExpression engine (w.number scope) place head body) := by
  have called (callee : Value) :
      w.Follows base (callValue engine scope place callee body) _ :=
    callValue_follows unaffected present callee
  have known : w.Follows base (known scope head) (known (w.number scope) head) := by
    unfold Interpret.known
    split
    · exact .lookup scope _
    · exact .pure _
  rw [callExpression_eq, callExpression_eq]
  refine .bind known fun bound => (w.rules base).ite (fun _ => called bound) fun _ => ?_
  refine .bind (unaffected.interpret head present) fun value => ?_
  split
  · refine .bind ((w.rules base).mapM fun e => commandArgument_follows unaffected present e)
      fun texts => runCommand_related (C := w.rules base) (w.here place) _ _
  · exact (w.rules base).ite (fun _ => called _) fun _ => .throw (.same _)

theorem interpret_follows (unaffected : engine.Unaffected w) (present : scope < base) (e : Expr) :
    w.Follows base (interpret engine e scope) (interpret engine e (w.number scope)) := by
  cases e with
  | value | command => exact .pure _
  | «variable» place name => exact .lookup scope name
  | array place body =>
      exact .bind (values_follows unaffected present) fun _ => (w.rules base).newArray _
  | map place body =>
      exact .bind (mapEntries_follows unaffected present #[]) fun found =>
        (w.rules base).newMap found
  | call place body =>
      cases body with
      | nil => exact .throw (.same _)
      | cons head rest => exact callExpression_follows unaffected present head

end Interpret

namespace Engine

theorem evaluateText_follows (unaffected : engine.Unaffected w) (present : scope < base)
    (source : String) :
    w.Follows base (evaluateText engine source scope)
      (evaluateText engine source (w.number scope)) := by
  have bounding (place : Option Location) {α : Type} {action action' : Eval α}
      (follows : w.Follows base action action') :
      w.Follows base (Eval.boundingDepth place action) (Eval.boundingDepth place action') := by
    refine follows.tryCatch fun failure failure' alike => ?_
    cases alike with
    | problem agree cause => exact .throw (.problem agree cause)
    | same failure => cases failure <;> exact .throw (.same _)
  have read : w.Follows base (evaluateText.liftExcept (Expr.read source))
      (evaluateText.liftExcept (Expr.read source)) := by
    unfold evaluateText.liftExcept
    split
    · exact .pure _
    · exact .throw (.same _)
  refine .bind (bounding none read) fun found => ?_
  cases found with
  | none => exact .pure _
  | some e => exact bounding _ (unaffected.interpret e present)

theorem unaffected_exhausted (patience : Nat) : (exhausted patience).Unaffected w where
  interpret _ _ _ _ := .throw (.same _)
  apply _ _ _ := .throw (.same _)
  advance _ _ := .throw (.same _)
  evaluate _ _ _ _ := .throw (.same _)

theorem Unaffected.deeper (unaffected : engine.Unaffected w) : engine.deeper.Unaffected w where
  interpret e _ _ present := Interpret.interpret_follows unaffected present e
  apply agree few _ := Apply.apply_follows unaffected agree few _
  advance ref base :=
    LazySequence.advance_related (C := w.rules base) unaffected.related w.here ref
  evaluate source _ _ present := evaluateText_follows unaffected present source

/-- One more scope makes no difference to any evaluation. -/
theorem unaffected_ofDepth (w : Widening) (patience depth : Nat) :
    (ofDepth patience depth).Unaffected w := by
  induction depth with
  | zero => exact unaffected_exhausted patience
  | succ depth ih => exact ih.deeper

end Engine

end ShellLisp
