import ShellLisp.Command
import ShellLisp.Evaluation.Form
import ShellLisp.Evaluation.Printed

/-!
# Evaluating expressions

A call whose head is the name of something callable, or whose head evaluates to something callable,
calls it: a special form gets the expressions, anything else their values. A call whose head
evaluates to a text runs the external command of that name.
-/

namespace ShellLisp.Interpret

def values (engine : Engine) (scope : Nat) (body : List Expr) : Eval (List Value) :=
  body.mapM fun e => engine.interpret e scope

def mapEntries (engine : Engine) (scope : Nat) : List Expr → Entries → Eval Entries
  | keyExpr :: valueExpr :: rest, found => do
      let key ← engine.interpret keyExpr scope
      let value ← engine.interpret valueExpr scope
      if key.unhashableType?.isSome then
        let shown ← Eval.print key
        Eval.problem keyExpr.place (.unhashableKey shown)
      mapEntries engine scope rest (found.put key value)
  | _, found => return found

def callValue (engine : Engine) (scope : Nat) (place : Location) (callee : Value)
    (body : List Expr) : Eval Value := do
  match callee with
  | .form ref =>
      match ← Eval.ask fun store => store.forms[ref]? with
      | some cell => Form.call engine scope place body cell.form
      | none => return .null
  | _ => engine.apply callee (← values engine scope body) place

/-- The texts of an argument of an external command: a number as it is spelled, the elements of an
array or sequence one by one, anything else printed. -/
def commandArgument (engine : Engine) (scope : Nat) (e : Expr) : Eval (List String) := do
  match e.numeralSpelling? with
  | some spelling => return [spelling]
  | none =>
      let value ← engine.interpret e scope
      match value with
      | .array _ | .tuple _ | .sequence _ =>
          let texts ← engine.foldElements (← Engine.elements value) [] fun found element =>
            return (← Eval.print element) :: found
          return texts.reverse
      | other => return [← Eval.print other]

/-- Runs an external command; its standard output is the value. -/
def runCommand (command : String) (arguments : List String) (place : Location) : Eval Value := do
  Eval.log .debug "lish.evaluation.evaluator"
    (command ++ " resolved to an external command at " ++ place.text)
  match ← Command.execute Command.logErrors command arguments with
  | .ok output => return .string output
  | .error failure => Eval.problem place (.processFailed failure.reason)

def callExpression (engine : Engine) (scope : Nat) (place : Location) (head : Expr)
    (body : List Expr) : Eval Value := do
  let known ←
    match head with
    | .command _ name => Eval.lookup scope name
    | _ => pure .null
  if known.isCallable then callValue engine scope place known body
  else
    match ← engine.interpret head scope with
    | .string command => do
        let arguments ← body.mapM (commandArgument engine scope)
        runCommand command arguments.flatten place
    | value =>
        if value.isCallable then callValue engine scope place value body
        else Eval.problem place .notCallable

def interpret (engine : Engine) (e : Expr) (scope : Nat) : Eval Value := do
  match e with
  | .value _ literal => return Value.ofLiteral literal
  | .command _ name => return .string name
  | .variable _ name => Eval.lookup scope name
  | .array _ body => Eval.newArray (← values engine scope body).toArray
  | .map _ body => Eval.newMap (← mapEntries engine scope body #[])
  | .call place (head :: body) => callExpression engine scope place head body
  | .call place [] => Eval.problem place .emptyCall

end ShellLisp.Interpret
