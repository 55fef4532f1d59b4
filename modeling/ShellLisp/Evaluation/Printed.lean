import ShellLisp.Evaluation.Sequence
import ShellLisp.Store.Printer

/-!
# Printing by programs

A program that prints a function goes through its parameters. Where these were changed to a lazy
sequence, that uses the sequence up: it gives its elements as the names, and has no more. This is
followed for a sequence of numbers; any other computes its elements by calls, and to print a function
with such parameters is not followed.
-/

namespace ShellLisp

/-- The most elements that a printed sequence may have. -/
def mostPrinted : Nat := 100000

/-- The numbers that a sequence of numbers still gives, when there are no more than a bound. -/
def SequenceState.numbersLeft? : Nat → SequenceState → Option (List Value)
  | bound + 1, .stepping current stop step started =>
      match LazySequence.advanceStepping current stop step started with
      | .ok (some (number, after)) => (numbersLeft? bound after).map (number :: ·)
      | .ok none => some []
      | .error _ => none
  | _, .finished => some []
  | _, _ => none

namespace Store

/-- The sequence that a function has for its parameters, and what the elements are printed as. -/
def printedParameters? (store : Store) (closure : Closure) : Option (Nat × List String) :=
  match closure.parameters with
  | .sequence ref => do
      let sequence ← store.sequences[ref]?
      if sequence.running then none
      let numbers ← sequence.state.numbersLeft? mostPrinted
      let names ← (numbers.mapM store.shown).toOption
      return (ref, names)
  | _ => none

def functionLabel (store : Store) (name : Value) : Except Failure String :=
  if store.truthy name then (store.shown name).map ("fn " ++ ·) else .ok "fn"

/-- The sequence that is used up when a value is printed, and the printed value. -/
def usedUp? (store : Store) : Value → Option (Nat × Except Failure String)
  | .closure ref => do
      let closure ← store.closures[ref]?
      let (sequence, names) ← store.printedParameters? closure
      return (sequence, (store.functionLabel closure.name).map (functionText · names))
  | _ => none

end Store

/-- Prints a value as a part of what a program writes or answers. -/
def Eval.print (value : Value) : Eval String := do
  match (← get).store.usedUp? value with
  | none => Eval.read fun store => store.text false value
  | some (sequence, text) => do
      LazySequence.setState sequence .finished
      Eval.read fun _ => text

end ShellLisp
