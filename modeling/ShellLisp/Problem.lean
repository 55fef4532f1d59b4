import ShellLisp.Fault
import ShellLisp.Location

/-!
# Problems of a program

Everything the language itself can complain about, as causes with their data; the wording is in
`Cause.message` and nowhere else, and the class of a cause in `Cause.kind`. An evaluation that does
not yield a value ends with a located problem, with a fault that nothing recovered, or because it
went too deep.
-/

namespace ShellLisp

inductive NodeKind
  | call
  | array
  | map
  | value
  | command
  | variable
  deriving DecidableEq, Repr

def NodeKind.name : NodeKind → String
  | .call => "call"
  | .array => "array"
  | .map => "map"
  | .value => "value"
  | .command => "command"
  | .variable => "variable"

inductive ProblemKind
  | reading
  | arity
  | type
  | dispatch
  | process
  | runtime
  | general
  deriving DecidableEq, Repr

/-- What is wrong. Values that a message shows are given in their written form. -/
inductive Cause
  | unterminatedText
  | unterminatedExpression
  | unterminatedForm (closer : Char)
  | unexpected (symbol : Char)
  | unknownToken (kind : String)
  | emptyCall
  | unevenMap
  | missingLeft (operator : String)
  | missingRight (operator : String)
  | takesExactly (callee : String) (expected found : Nat)
  | takesBetween (callee : String) (least most found : Nat)
  | takesAtLeast (callee : String) (least found : Nat)
  | expectedVariable (form : String) (position : Nat) (found : NodeKind)
  | expectedArrayForm (form : String) (position : Nat) (found : NodeKind)
  | expectedKeyword (word found : String)
  | expectedIterable
  | expectedFunction
  | expectedNumber
  | expectedString
  | expectedNonEmptyString
  | expectedNonEmptyArray
  | unhashableKey (key : String)
  | formApplied (name : String)
  | notAnIndex (key : String)
  | cannotSet (key target : String)
  | invalidJson (reason : String) (line column : Nat)
  | notANumber (text : String)
  | notCallable
  | processFailed (reason : String)
  | zeroStep
  | noModuleScope
  | recovered (fault : Fault)
  | tooDeep
  deriving DecidableEq, Repr

def Cause.kind : Cause → ProblemKind
  | .unterminatedText | .unterminatedExpression | .unterminatedForm _ | .unexpected _
  | .unknownToken _ | .emptyCall | .unevenMap | .missingLeft _ | .missingRight _ => .reading
  | .takesExactly .. | .takesBetween .. | .takesAtLeast .. => .arity
  | .expectedVariable .. | .expectedArrayForm .. | .expectedKeyword .. | .expectedIterable
  | .expectedFunction | .expectedNumber | .expectedString | .expectedNonEmptyString
  | .expectedNonEmptyArray | .unhashableKey _ | .formApplied _ | .notAnIndex _ | .cannotSet ..
  | .invalidJson .. | .notANumber _ => .type
  | .notCallable => .dispatch
  | .processFailed _ => .process
  | .zeroStep | .recovered _ | .tooDeep => .runtime
  | .noModuleScope => .general

def Cause.message : Cause → String
  | .unterminatedText => "Unterminated string"
  | .unterminatedExpression => "Unterminated expression"
  | .unterminatedForm closer => "Unterminated form, expected '" ++ closer.toString ++ "'"
  | .unexpected symbol => "Unexpected '" ++ symbol.toString ++ "'"
  | .unknownToken kind => "Unknown token type " ++ kind
  | .emptyCall => "Empty call form"
  | .unevenMap => "Map literal must have an even number of values to form key -> value pairs"
  | .missingLeft operator => "Pipe operator '" ++ operator ++ "' requires a left-hand side"
  | .missingRight operator => "Pipe operator '" ++ operator ++ "' requires a right-hand side"
  | .takesExactly callee expected found =>
      callee ++ " takes exactly " ++ toString expected ++ " arguments: found " ++ toString found
  | .takesBetween callee least most found =>
      callee ++ " takes between " ++ toString least ++ " and " ++ toString most ++
        " arguments: found " ++ toString found
  | .takesAtLeast callee least found =>
      callee ++ " takes at least " ++ toString least ++ " arguments: found " ++ toString found
  | .expectedVariable form position found =>
      "Expected variable definition after " ++ form ++ " at position " ++ toString position ++
        ": found " ++ found.name
  | .expectedArrayForm form position found =>
      "Expected array definition after " ++ form ++ " at position " ++ toString position ++
        ": found " ++ found.name
  | .expectedKeyword word found => "Expected keyword " ++ word ++ ": found " ++ found
  | .expectedIterable => "Expected iterable"
  | .expectedFunction => "Expected function"
  | .expectedNumber => "Expected number"
  | .expectedString => "Expected string"
  | .expectedNonEmptyString => "Expected non-empty string"
  | .expectedNonEmptyArray => "Expected non-empty array"
  | .unhashableKey key => "Map key " ++ key ++ " is not hashable"
  | .formApplied name => "Macro " ++ name ++ " cannot be applied to evaluated arguments"
  | .notAnIndex key => "Array index must be a number: found " ++ key
  | .cannotSet key target => "Cannot set " ++ key ++ " on " ++ target
  | .invalidJson reason line column =>
      "Invalid JSON: " ++ reason ++ " at line " ++ toString line ++ " column " ++ toString column
  | .notANumber text => "Not a number: " ++ text
  | .notCallable => "call target is neither a function nor a command"
  | .processFailed reason => reason
  | .zeroStep => "range step must not be zero"
  | .noModuleScope => "def requires a module scope"
  | .recovered fault => fault.message
  | .tooDeep => "maximum recursion depth exceeded"

structure Problem where
  cause : Cause
  place : Option Location
  deriving DecidableEq, Repr

def Problem.text (problem : Problem) : String :=
  match problem.place with
  | none => problem.cause.message
  | some place => problem.cause.message ++ " at " ++ place.text

inductive Failure
  | problem (problem : Problem)
  | fault (fault : Fault)
  | tooDeep
  deriving DecidableEq, Repr

/-- The result of an operation on data as that of an evaluation. -/
def Failure.lift {α : Type} (result : Except Fault α) : Except Failure α :=
  result.mapError .fault

theorem exists_of_bind_ok {α β : Type} {action : Except Failure α} {next : α → Except Failure β}
    {b : β} (done : (action >>= next) = .ok b) : ∃ a, action = .ok a ∧ next a = .ok b := by
  cases action with
  | error failure => cases done
  | ok a => exact ⟨a, rfl, done⟩

def Failure.at (place : Location) (cause : Cause) : Failure := .problem ⟨cause, some place⟩

/-- How deep the nesting of source text, trees, values and evaluations may go. -/
structure DepthLimits where
  brackets : Nat
  trees : Nat
  values : Nat
  evaluation : Nat

/-- The depths that are allowed. Trees grow deeper than brackets where a line chains operators. -/
def depthLimits : DepthLimits :=
  { brackets := 450, trees := 900, values := 450, evaluation := 500 }

end ShellLisp
