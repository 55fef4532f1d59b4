import ShellLisp.Proofs.Splicing.Trees
import ShellLisp.Proofs.Splicing.Twins

/-!
# Evaluation of spliced trees

Special forms take the trees apart that they are given. None of them sees whether inner sequences
are spliced in these: what a form does with a row of trees, it does with the spliced trees too.
-/

namespace ShellLisp
open ShellLisp.Expr (Spliced)

variable {first second : Engine} {place : Location} {scope : Nat} {body body' : List Expr}
variable {e e' : Expr} {α : Type}

namespace Expr.Spliced

theorem row (body : List Expr) : List.Forall₂ Spliced body body :=
  List.forall₂_same.mpr fun e _ => .refl e

theorem place_eq (spliced : Spliced e e') : e'.place = e.place := by
  cases spliced <;> rfl

theorem kind_eq (spliced : Spliced e e') : e'.kind = e.kind := by
  cases spliced <;> rfl

theorem bareWord?_eq (spliced : Spliced e e') : e'.bareWord? = e.bareWord? := by
  cases spliced <;> rfl

theorem numeralSpelling?_eq (spliced : Spliced e e') :
    e'.numeralSpelling? = e.numeralSpelling? := by
  cases spliced <;> rfl

end Expr.Spliced

namespace Mirrors

theorem arity {like : Expr → Expr → Prop} (items : List.Forall₂ Spliced body body')
    (cause : Nat → Cause) :
    Mirrors like Eq (Eval.problem place (cause body.length) : Eval α)
      (Eval.problem place (cause body'.length)) := by
  rw [items.length_eq]
  exact .problem _ _

theorem newClosure {like : Expr → Expr → Prop} (alike : like e e') (parameters : Value)
    (name : Value) :
    Mirrors like Eq (Eval.change fun store => store.newClosure ⟨parameters, e, scope, name, []⟩)
      (Eval.change fun store => store.newClosure ⟨parameters, e', scope, name, []⟩) := by
  rintro session _ ⟨bodies, rfl, known⟩
  let next := session.store.closures.size
  let bodies' (ref : Nat) : Expr := if ref = next then e' else bodies ref
  have size : (session.store.withBodies bodies).closures.size = next := by
    simp [Store.withBodies, next]
  have pushed : (session.store.withBodies bodies).closures.push ⟨parameters, e', scope, name, []⟩ =
      ((session.store.newClosure ⟨parameters, e, scope, name, []⟩).2.withBodies bodies').closures := by
    refine Array.ext_getElem? fun ref => ?_
    simp only [Store.getElem?_withBodies, Store.newClosure, Array.getElem?_push, size]
    split
    · rename_i same
      simp [bodies', same, next]
    · rename_i other
      simp [bodies', other]
  refine .returned ?_ ⟨bodies', ?_, fun ref found there => ?_⟩ (.refl session.store)
  · exact congrArg Value.closure size.symm
  · show { session with store := { session.store.withBodies bodies with
      closures := (session.store.withBodies bodies).closures.push _ } } = _
    rw [pushed]
    rfl
  · simp only [Store.bodyAt?, Array.getElem?_push] at there
    split at there
    · rename_i same
      cases there
      simpa [bodies', same, next] using alike
    · rename_i other
      simpa [bodies', next, other] using known ref found there

end Mirrors

namespace Form

theorem variableName_mirrors {form : String} {position : Nat} (spliced : Spliced e e') :
    Mirrors Spliced Eq (variableName form position e) (variableName form position e') := by
  cases spliced with
  | refl e =>
      unfold variableName
      split
      · exact .pure rfl
      · exact .problem _ _
  | call | array | map | sequence => exact .problem _ _

theorem arrayItems_mirrors {form : String} {position : Nat} (spliced : Spliced e e') :
    Mirrors Spliced (List.Forall₂ Spliced) (arrayItems form position e)
      (arrayItems form position e') := by
  cases spliced with
  | refl e =>
      unfold arrayItems
      split
      · exact .pure (Spliced.row _)
      · exact .problem _ _
  | array items => exact .pure items
  | call | map | sequence => exact .problem _ _

theorem keyword_mirrors {word : String} (spliced : Spliced e e') :
    Mirrors Spliced Eq (keyword word e) (keyword word e') := by
  unfold keyword
  rw [spliced.bareWord?_eq, spliced.place_eq, spliced.kind_eq]
  split
  · exact .problem _ _
  · exact .ite (fun _ => .pure rfl) fun _ => .problem _ _

theorem nameFunction_mirrored (name : String) (value : Value) :
    Mirrored Spliced (nameFunction name value) := by
  unfold nameFunction
  split
  · refine .update (Unseeing.blind (.modifyClosure _ (fun closure _ _ => ?_) fun closure => ?_))
    · obtain ⟨parameters, former, around, found⟩ := closure
      cases found <;> rfl
    · obtain ⟨parameters, former, around, found⟩ := closure
      cases found <;> exact ⟨rfl, rfl⟩
  · exact .pure rfl

theorem defineIn_mirrors (name : String) {action action' : Eval Value}
    (mirrors : Mirrors Spliced Eq action action') :
    Mirrors Spliced Eq (defineIn scope place name action) (defineIn scope place name action') := by
  refine .bind (.ask fun _ _ => rfl) fun found => ?_
  cases found with
  | none => exact .problem _ _
  | some module =>
      refine .bind mirrors fun value => .bind (nameFunction_mirrored name value) fun _ => ?_
      exact .bind (.define module name value) fun _ => .pure rfl

theorem parameterNames_mirrors {position : Nat} (items : List.Forall₂ Spliced body body') :
    Mirrors Spliced Eq (parameterNames position body) (parameterNames position body') := by
  induction items generalizing position with
  | nil => exact .pure rfl
  | cons spliced _ ih =>
      exact .bind (variableName_mirrors spliced) fun name => .bind ih fun _ => .pure rfl

theorem closure_mirrors {parameters parameters' : Expr} (name : Value)
    (taken : Spliced parameters parameters') (result : Spliced e e') :
    Mirrors Spliced Eq (closure scope name parameters e) (closure scope name parameters' e') := by
  refine .bindAs (arrayItems_mirrors taken) fun items items' alike => ?_
  refine .bind (parameterNames_mirrors alike) fun names => ?_
  refine .bind ((Congruence.mirrors Spliced).newTexts names) fun texts => ?_
  exact .newClosure result texts name

theorem define_mirrors (coupled : Coupled Spliced first second)
    (items : List.Forall₂ Spliced body body') :
    Mirrors Spliced Eq (define first scope place body) (define second scope place body') := by
  have whole := items
  rcases items with _ | ⟨target, _ | ⟨value, _ | ⟨_, _⟩⟩⟩
  case cons.cons.nil =>
    refine .bind (variableName_mirrors target) fun name => ?_
    exact defineIn_mirrors name (coupled.interpret value scope)
  all_goals exact .arity whole (.takesExactly "def" 2)

theorem defineFunction_mirrors (items : List.Forall₂ Spliced body body') :
    Mirrors Spliced Eq (defineFunction scope place body) (defineFunction scope place body') := by
  have whole := items
  rcases items with _ | ⟨target, _ | ⟨parameters, _ | ⟨result, _ | ⟨_, _⟩⟩⟩⟩
  case cons.cons.cons.nil =>
    refine .bind (variableName_mirrors target) fun name => ?_
    refine .bind (closure_mirrors _ parameters result) fun function => ?_
    exact defineIn_mirrors name (.pure rfl)
  all_goals exact .arity whole (.takesExactly "defn" 3)

theorem function_mirrors (items : List.Forall₂ Spliced body body') :
    Mirrors Spliced Eq (function scope place body) (function scope place body') := by
  have whole := items
  rcases items with _ | ⟨parameters, _ | ⟨result, _ | ⟨_, _⟩⟩⟩
  case cons.cons.nil => exact closure_mirrors _ parameters result
  all_goals exact .arity whole (.takesExactly "fn" 2)

theorem choose_mirrors (coupled : Coupled Spliced first second)
    (items : List.Forall₂ Spliced body body') :
    Mirrors Spliced Eq (choose first scope place body) (choose second scope place body') := by
  have whole := items
  rcases items with _ | ⟨condition, _ | ⟨value, _ | ⟨other, _ | ⟨_, _⟩⟩⟩⟩
  case cons.cons.nil =>
    refine .bind (coupled.interpret condition scope) fun found => ?_
    refine .bind ((Congruence.mirrors Spliced).truthy found) fun _ => ?_
    exact .ite (fun _ => coupled.interpret value scope) fun _ => .pure rfl
  case cons.cons.cons.nil =>
    refine .bind (coupled.interpret condition scope) fun found => ?_
    refine .bind ((Congruence.mirrors Spliced).truthy found) fun _ => ?_
    exact .ite (fun _ => coupled.interpret value scope) fun _ => coupled.interpret other scope
  all_goals exact .arity whole (.takesBetween "if" 2 3)

theorem each_mirrors (coupled : Coupled Spliced first second)
    (items : List.Forall₂ Spliced body body') :
    Mirrors Spliced Eq (each first scope place body) (each second scope place body') := by
  have whole := items
  rcases items with _ | ⟨target, _ | ⟨word, _ | ⟨source, _ | ⟨result, _ | ⟨_, _⟩⟩⟩⟩⟩
  case cons.cons.cons.cons.nil =>
    refine .bind (variableName_mirrors target) fun name => ?_
    refine .bind (keyword_mirrors word) fun _ => ?_
    refine .bind (coupled.interpret source scope) fun found => ?_
    rw [source.place_eq]
    refine .bind (Arguments.iterable_related (C := .mirrors Spliced) rfl _) fun _ => ?_
    refine .bind (Engine.entries_related (C := .mirrors Spliced) found) fun cursor => ?_
    refine .bind (Engine.collectMap_related coupled.related (fun item => ?_) cursor) fun values =>
      ((Congruence.mirrors Spliced).newArray values)
    refine .bind (.newScope scope) fun inner => .bind (.define inner name item) fun _ => ?_
    exact coupled.interpret result inner
  all_goals exact .arity whole (.takesExactly "for" 4)

theorem pairs_mirrors (items : List.Forall₂ Spliced body body') :
    Mirrors Spliced (List.Forall₂ (List.Forall₂ Spliced)) (pairs body) (pairs body') := by
  have arrays : Mirrors Spliced (List.Forall₂ (List.Forall₂ Spliced))
      (body.mapM (arrayItems "let" 1)) (body'.mapM (arrayItems "let" 1)) :=
    .mapMAs items fun _ _ spliced => arrayItems_mirrors spliced
  have one : Mirrors Spliced (List.Forall₂ (List.Forall₂ Spliced)) (Pure.pure [body])
      (Pure.pure [body']) := .pure (.cons items .nil)
  cases items with
  | nil => exact one
  | @cons head _ _ _ spliced _ =>
      cases spliced with
      | refl =>
          cases head with
          | array => exact arrays
          | _ => exact one
      | array => exact arrays
      | call | map | sequence => exact one

theorem bindPair_mirrors (coupled : Coupled Spliced first second)
    (items : List.Forall₂ Spliced body body') :
    Mirrors Spliced Eq (bindPair first scope place body) (bindPair second scope place body') := by
  have whole := items
  rcases items with _ | ⟨target, _ | ⟨value, _ | ⟨_, _⟩⟩⟩
  case cons.cons.nil =>
    refine .bind (variableName_mirrors target) fun name => ?_
    exact .bind (coupled.interpret value scope) fun found => .define scope name found
  all_goals exact .arity whole (.takesExactly "let" 2)

theorem bind_mirrors (coupled : Coupled Spliced first second)
    (items : List.Forall₂ Spliced body body') :
    Mirrors Spliced Eq (bind first scope place body) (bind second scope place body') := by
  have whole := items
  rcases items with _ | ⟨bindings, _ | ⟨result, _ | ⟨_, _⟩⟩⟩
  case cons.cons.nil =>
    refine .bindAs (arrayItems_mirrors bindings) fun given given' alike => ?_
    have filled : given'.isEmpty = given.isEmpty := by cases alike <;> rfl
    rw [filled]
    refine .ite (fun _ => .stop _) fun _ => ?_
    refine .bindAs (pairs_mirrors alike) fun found found' rows => ?_
    refine .bind (.newScope scope) fun inner => ?_
    refine .bind (.forM rows fun _ _ pair => bindPair_mirrors coupled pair) fun _ => ?_
    exact coupled.interpret result inner
  all_goals exact .arity whole (.takesExactly "let" 2)

theorem delete_mirrors {position : Nat} (items : List.Forall₂ Spliced body body') :
    Mirrors Spliced Eq (delete scope position body) (delete scope position body') := by
  induction items generalizing position with
  | nil => exact .pure rfl
  | cons spliced _ ih =>
      exact .bind (variableName_mirrors spliced) fun name =>
        .bind (.update (.of_functions (fun _ _ => rfl) fun _ => ⟨rfl, rfl⟩)) fun _ => ih

theorem firstThat_mirrors (coupled : Coupled Spliced first second) (truth : Bool) (last : Value)
    (items : List.Forall₂ Spliced body body') :
    Mirrors Spliced Eq (firstThat first scope truth last body)
      (firstThat second scope truth last body') := by
  induction items generalizing last with
  | nil => exact .pure rfl
  | cons spliced _ ih =>
      refine .bind (coupled.interpret spliced scope) fun value => ?_
      refine .bind ((Congruence.mirrors Spliced).truthy value) fun _ => ?_
      exact .ite (fun _ => .pure rfl) fun _ => ih value

theorem evaluate_mirrors (coupled : Coupled Spliced first second)
    (items : List.Forall₂ Spliced body body') :
    Mirrors Spliced Eq (evaluate first scope place body) (evaluate second scope place body') := by
  have whole := items
  rcases items with _ | ⟨source, _ | ⟨_, _⟩⟩
  case cons.nil =>
    refine .bind (coupled.interpret source scope) fun value => ?_
    refine .bind (Arguments.string_related (C := .mirrors Spliced) rfl value) fun text => ?_
    exact coupled.evaluate text scope
  all_goals exact .arity whole (.takesExactly "eval" 1)

theorem call_mirrors (coupled : Coupled Spliced first second)
    (items : List.Forall₂ Spliced body body') (form : SpecialForm) :
    Mirrors Spliced Eq (call first scope place body form) (call second scope place body' form) := by
  cases form with
  | define => exact define_mirrors coupled items
  | defineFunction => exact defineFunction_mirrors items
  | function => exact function_mirrors items
  | choose => exact choose_mirrors coupled items
  | each => exact each_mirrors coupled items
  | bind => exact bind_mirrors coupled items
  | delete => exact delete_mirrors items
  | and => exact firstThat_mirrors coupled _ _ items
  | or => exact firstThat_mirrors coupled _ _ items
  | evaluate => exact evaluate_mirrors coupled items

end Form

end ShellLisp
