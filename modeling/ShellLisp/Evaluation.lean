import ShellLisp.Evaluation.Apply
import ShellLisp.Evaluation.Interpret
import ShellLisp.Evaluation.Sequence
import ShellLisp.Expr.Reading

/-!
# The evaluator

Ties the evaluator together: an engine that may go one level deeper than another is made of that
other one. Evaluating source text reads it first; when reading or evaluating goes too deep, that is
a problem, which has the place of the program when it could be read.
-/

namespace ShellLisp

namespace Eval

/-- Runs an action; that it goes too deep becomes a problem. -/
def boundingDepth {α : Type} (place : Option Location) (action : Eval α) : Eval α :=
  tryCatch action fun failure =>
    match failure with
    | .tooDeep => throw (.problem ⟨.tooDeep, place⟩)
    | other => throw other

end Eval

namespace Engine

/-- The value of source text in a scope; null for an empty program. -/
def evaluateText (engine : Engine) (source : String) (scope : Nat) : Eval Value := do
  match ← Eval.boundingDepth none (liftExcept (Expr.read source)) with
  | none => return .null
  | some e => Eval.boundingDepth (some e.place) (engine.interpret e scope)
where
  liftExcept (result : Except Failure (Option Expr)) : Eval (Option Expr) :=
    match result with
    | .ok e => return e
    | .error failure => throw failure

/-- The engine that may go one level deeper than another. -/
def deeper (engine : Engine) : Engine :=
  { interpret := Interpret.interpret engine
    apply := Apply.apply engine
    advance := LazySequence.advance engine
    evaluate := evaluateText engine
    patience := engine.patience }

def ofDepth (patience : Nat) : Nat → Engine
  | 0 => exhausted patience
  | depth + 1 => deeper (ofDepth patience depth)

theorem interpret_ofDepth (patience depth : Nat) (e : Expr) (scope : Nat) :
    (ofDepth patience (depth + 1)).interpret e scope =
      Interpret.interpret (ofDepth patience depth) e scope := rfl

@[simp] theorem patience_ofDepth (patience depth : Nat) :
    (ofDepth patience depth).patience = patience := by
  induction depth with
  | zero => rfl
  | succ depth ih => exact ih

def defaultPatience : Nat := 100000000

def default : Engine := ofDepth defaultPatience depthLimits.evaluation

end Engine

end ShellLisp
