import ShellLisp.Evaluation.Printed
import ShellLisp.Library.Function

/-!
# Functions that write to the console

Each writes its printed arguments with a space between each two, on a line of its own.
-/

namespace ShellLisp.Console

def line (arguments : List Value) : Eval String := do
  let parts ← arguments.mapM Eval.print
  return " ".intercalate parts

def print (arguments : List Value) : Eval Value := do
  let text ← line arguments
  Eval.emit (.output (text ++ "\n"))
  return .null

/-- Writes to the log, with the place of the call, and to standard error. -/
def error (place : Location) (arguments : List Value) : Eval Value := do
  let text ← line arguments
  Eval.log .error "lish" (text ++ " (at " ++ place.text ++ ")")
  Eval.emit (.diagnostic (text ++ "\n"))
  return .null

def call (place : Location) (arguments : List Value) : ConsoleFunction → Eval Value
  | .print => print arguments
  | .error => error place arguments

end ShellLisp.Console
