import ShellLisp.Library.Core
import ShellLisp.Library.Host

/-!
# Applying functions

Calling a function with evaluated arguments. A function that a program defined binds its parameters
in a new scope inside the one it closes over. Faults of library and host functions become problems
at the place of the call.
-/

namespace ShellLisp.Apply

/-- How many arguments a function of the given parameters takes. -/
def parameterCount (store : Store) (parameters : Value) : Except Fault Nat :=
  HostFunction.length store parameters

def calleeName (store : Store) (name : Value) : Except Failure String :=
  if store.truthy name then store.shown name else .ok "fn"

/-- Binds parameters to arguments in a scope; only texts name variables. -/
def bindParameters (scope : Nat) : List Value → List Value → Eval Unit
  | parameter :: parameters, argument :: arguments => do
      match parameter with
      | .string name => Eval.define scope name argument
      | other => Eval.lift other.checkKey
      bindParameters scope parameters arguments
  | _, _ => return

/-- What a function does after a part of it was replaced is not followed. -/
def intact (type : String) : Bindings Value → Eval Unit
  | [] => return
  | (name, _) :: _ => Eval.fault (.internal type name)

def closure (engine : Engine) (closure : Closure) (arguments : List Value) (place : Location) :
    Eval Value := do
  intact "UserFunction" closure.replaced
  let expected ← Eval.lift (parameterCount (← get).store closure.parameters)
  if arguments.length ≠ expected then
    let callee ← Eval.read fun store => calleeName store closure.name
    Eval.problem place (.takesExactly callee expected arguments.length)
  let scope ← Eval.newScope closure.scope
  let parameters ← Eval.lift ((← get).store.fixedElements closure.parameters)
  bindParameters scope parameters arguments
  engine.interpret closure.body scope

def apply (engine : Engine) (callee : Value) (arguments : List Value) (place : Location) :
    Eval Value := do
  match callee with
  | .library ref =>
      match ← Eval.ask fun store => store.libraries[ref]? with
      | some cell => Eval.recovering place (cell.function.call engine place arguments)
      | none => Eval.problem place .expectedFunction
  | .closure ref =>
      match ← Eval.ask fun store => store.closures[ref]? with
      | some found => closure engine found arguments place
      | none => Eval.problem place .expectedFunction
  | .bound ref =>
      match ← Eval.ask fun store => store.bounds[ref]? with
      | some method => do
          intact "BoundMethod" method.replaced
          Eval.recovering place (method.function.call (method.receiver :: arguments))
      | none => Eval.problem place .expectedFunction
  | .form ref =>
      let name ← Eval.ask fun store => (store.forms[ref]?.map (·.name)).getD .null
      Eval.problem place (.formApplied (← Eval.read fun store => store.shown name))
  | .host function => Eval.recovering place (function.call arguments)
  | _ => Eval.problem place .expectedFunction

end ShellLisp.Apply
