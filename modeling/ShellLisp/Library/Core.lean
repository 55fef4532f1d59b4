import ShellLisp.Library.Console
import ShellLisp.Library.Files
import ShellLisp.Library.Members
import ShellLisp.Library.Parsing
import ShellLisp.Library.Sequences
import ShellLisp.Session.Definitions

/-!
# Calls of library functions

The functions of the core scope, the commands of an interactive session, and the one place from
which every library function is called.
-/

namespace ShellLisp
open Arguments

namespace Core

/-- The value of a unary minus or of differences from the left. -/
def subtract (place : Location) (arguments : List Value) : Eval Value := do
  match arguments with
  | [only] => return .number (← number place only).negate
  | _ => Operator.foldArguments "-" Operator.subtract place arguments

def equal (callee : String) (place : Location) (arguments : List Value) : Eval Bool := do
  let (left, right) ← two callee place arguments
  Eval.read fun store => store.equal left right

def truthy (value : Value) : Eval Bool := Eval.ask fun store => store.truthy value

/-- The value at the end of a path into the first argument. -/
def get (place : Location) (arguments : List Value) : Eval Value := do
  atLeast "get" 2 place arguments
  Member.followAndBind (arguments.headD .null) arguments.tail

/-- Writes the last argument at the end of a path into the first, which is the value. -/
def set (place : Location) (arguments : List Value) : Eval Value := do
  atLeast "set" 3 place arguments
  let root := arguments.headD .null
  Member.writeAt root place arguments.tail
  return root

/-- The value of a function for the elements of a value as arguments. -/
def apply (engine : Engine) (place : Location) (arguments : List Value) : Eval Value := do
  match arguments with
  | [callee] => engine.apply callee [] place
  | [callee, given] =>
      iterable place given
      let elements ← engine.collect (← Engine.elements given)
      engine.apply callee elements.toList place
  | _ => Eval.problem place (.takesBetween "apply" 1 2 arguments.length)

def call (engine : Engine) (place : Location) (arguments : List Value) :
    CoreFunction → Eval Value
  | .add => Operator.foldArguments "+" Operator.add place arguments
  | .subtract => subtract place arguments
  | .multiply => Operator.foldArguments "*" Operator.multiply place arguments
  | .divide => Operator.foldArguments "/" Operator.divide place arguments
  | .modulo => Operator.foldArguments "%" Operator.modulo place arguments
  | .power => Operator.foldArguments "^" Operator.power place arguments
  | .equal => do return .bool (← equal "==" place arguments)
  | .notEqual => do return .bool (!(← equal "!=" place arguments))
  | .less => Operator.compareArguments .less place arguments
  | .lessOrEqual => Operator.compareArguments .lessOrEqual place arguments
  | .greater => Operator.compareArguments .greater place arguments
  | .greaterOrEqual => Operator.compareArguments .greaterOrEqual place arguments
  | .not => do return .bool (!(← truthy (← one "not" place arguments)))
  | .xor => do
      let (left, right) ← two "xor" place arguments
      return .bool ((← truthy left) != (← truthy right))
  | .isNull => do
      match ← one "nil?" place arguments with
      | .null => return .bool true
      | _ => return .bool false
  | .typeOf => do return .string (← one "typeOf" place arguments).typeOf
  | .get => get place arguments
  | .set => set place arguments
  | .sequence => return arguments.getLastD .null
  | .echo => Console.print arguments
  | .apply => apply engine place arguments
  | .changeDirectory => do Files.enter (← string place (← one "cd" place arguments))
  | .workingDirectory => do
      empty "cwd" place arguments
      return .string (← getThe Session).directory.text

end Core

def SessionCommand.call (place : Location) (arguments : List Value) :
    SessionCommand → Eval Value
  | .exit => do
      modify fun session => { session with running := false }
      return .null
  | .clearResults => do
      empty "clearResults" place arguments
      modify Session.clearResults
      return .null
  | .clearDefinitions => do
      empty "clearDefs" place arguments
      modify Session.clearDefinitions
      return .null
  | .listDefinitions => do
      empty "listDefs" place arguments
      for name in (← get).definitions do
        Eval.emit (.reply name)
      return .null

def LibraryFunction.call (engine : Engine) (place : Location) (arguments : List Value) :
    LibraryFunction → Eval Value
  | .core function => Core.call engine place arguments function
  | .array function => Sequences.call engine place arguments function
  | .string function => Strings.call engine place arguments function
  | .parse function => Parsing.call engine place arguments function
  | .console function => Console.call place arguments function
  | .file function => Files.call place arguments function
  | .session command => command.call place arguments

end ShellLisp
