import ShellLisp.Session

/-!
# Engines

What a library function can ask of the evaluator: to evaluate an expression, to apply a function, to
give the next element of a lazy sequence, and to evaluate source text. The evaluator is the limit of
engines that each may go one level deeper than the last; an engine without any level left reports
that evaluation went too deep.
-/

namespace ShellLisp

structure Engine where
  /-- The value of an expression in a scope. -/
  interpret : Expr → Nat → Eval Value
  /-- The value of a function for arguments, in a call at a place. -/
  apply : Value → List Value → Location → Eval Value
  /-- The next element of a lazy sequence, if there is one. -/
  advance : Nat → Eval (Option Value)
  /-- The value of source text in a scope. -/
  evaluate : String → Nat → Eval Value
  /-- How many elements one operation may go through. -/
  patience : Nat

def Engine.exhausted (patience : Nat) : Engine :=
  { interpret := fun _ _ => throw .tooDeep
    apply := fun _ _ _ => throw .tooDeep
    advance := fun _ => throw .tooDeep
    evaluate := fun _ _ => throw .tooDeep
    patience }

end ShellLisp
