import ShellLisp.Expr
import ShellLisp.Library.Function

/-!
# Values

The values that programs compute with. Arrays, maps, functions, lazy sequences and host objects have
an identity: the value is a number under which a store holds what it is, so that two names for one
array see each other's changes. Everything else is the value itself.
-/

namespace ShellLisp

/-- The functions that a host program can put into a session. -/
inductive HostFunction
  | add
  | greet
  | args
  | tick
  | failValue
  | failEmpty
  | failKey
  | failOs
  | failRuntime
  | len
  deriving DecidableEq, Repr

def HostFunction.name : HostFunction → String
  | .add => "add"
  | .greet => "greet"
  | .args => "args"
  | .tick => "tick"
  | .failValue => "fail_value"
  | .failEmpty => "fail_empty"
  | .failKey => "fail_key"
  | .failOs => "fail_os"
  | .failRuntime => "fail_runtime"
  | .len => "len"

/-- Whether a map that the function is a member of is passed to it as its receiver. -/
def HostFunction.takesReceiver : HostFunction → Bool
  | .len => false
  | _ => true

inductive Value
  | null
  | bool (b : Bool)
  | number (n : Number)
  | string (s : String)
  | tuple (items : List Value)
  | complex
  | array (ref : Nat)
  | map (ref : Nat)
  | library (ref : Nat)
  | form (ref : Nat)
  | closure (ref : Nat)
  | bound (ref : Nat)
  | sequence (ref : Nat)
  | object (ref : Nat)
  | host (function : HostFunction)
  deriving Inhabited

namespace Value

def int (n : Int) : Value := .number (.int n)

def ofChars (text : List Char) : Value := .string (String.ofList text)

def ofLiteral : Literal → Value
  | .null => .null
  | .bool b => .bool b
  | .number n _ => .number n
  | .word text => .string text
  | .quoted text => .string text

def typeName : Value → String
  | .null => "NoneType"
  | .bool _ => "bool"
  | .number (.int _) => "int"
  | .number (.float _) => "float"
  | .string _ => "str"
  | .tuple _ => "tuple"
  | .complex => "complex"
  | .array _ => "list"
  | .map _ => "dict"
  | .library _ => "Lib"
  | .form _ => "Macro"
  | .closure _ => "UserFunction"
  | .bound _ => "BoundMethod"
  | .sequence _ => "LazySeq"
  | .object _ => "Obj"
  | .host .len => "builtin_function_or_method"
  | .host _ => "function"

def typeOf : Value → String
  | .null => "null"
  | .bool _ => "boolean"
  | .number _ => "number"
  | .string _ => "string"
  | .tuple _ => "array"
  | .complex => "object"
  | .array _ => "array"
  | .map _ => "map"
  | .library _ => "lib"
  | .form _ => "macro"
  | .closure _ => "user"
  | .bound _ => "function"
  | .sequence _ => "sequence"
  | .object _ => "object"
  | .host _ => "function"

def isCallable : Value → Bool
  | .library _ | .form _ | .closure _ | .bound _ | .host _ => true
  | _ => false

def isIterable : Value → Bool
  | .string _ | .tuple _ | .array _ | .map _ | .sequence _ => true
  | _ => false

/-- The number that a value is, true and false being one and zero. -/
def numeric? : Value → Option Number
  | .bool b => some (.int (if b then 1 else 0))
  | .number n => some n
  | _ => none

mutual

/-- Whether two values are the same map key: the same number or text, or one and the same object. -/
def sameKey : Value → Value → Bool
  | .null, .null => true
  | .bool a, .bool b => a == b
  | .bool a, .number m => (Number.int (if a then 1 else 0)).same m
  | .number n, .bool b => n.same (.int (if b then 1 else 0))
  | .number n, .number m => n.same m
  | .string a, .string b => a == b
  | .complex, .complex => true
  | .tuple a, .tuple b => sameKeys a b
  | .array a, .array b => a == b
  | .map a, .map b => a == b
  | .library a, .library b => a == b
  | .form a, .form b => a == b
  | .closure a, .closure b => a == b
  | .bound a, .bound b => a == b
  | .sequence a, .sequence b => a == b
  | .object a, .object b => a == b
  | .host a, .host b => a == b
  | _, _ => false

def sameKeys : List Value → List Value → Bool
  | [], [] => true
  | a :: as, b :: bs => a.sameKey b && sameKeys as bs
  | _, _ => false

end

mutual

/-- The type of a part of a value that keeps it from being a map key, if there is one. -/
def unhashableType? : Value → Option String
  | .array _ => some "list"
  | .map _ => some "dict"
  | .tuple items => unhashableAmong? items
  | _ => none

def unhashableAmong? : List Value → Option String
  | [] => none
  | v :: rest => v.unhashableType?.or (unhashableAmong? rest)

end

def checkKey (key : Value) : Except Fault Unit :=
  match key.unhashableType? with
  | some type => .error (.unhashable type)
  | none => .ok ()

end Value

inductive Cursor
  /-- The elements of an array from a position on, as they are when they are reached. -/
  | elements (array position : Nat)
  /-- The entries of a map from a position on, as pairs; the map must keep its size. -/
  | pairs (map position size : Nat)
  /-- The keys of a map from a position on; the map must keep its size. -/
  | keys (map position size : Nat)
  | chars (rest : List Char)
  | items (rest : List Value)
  | sequence (ref : Nat)
  | ended

inductive SequenceState
  /-- Numbers that go up by one without end. -/
  | counting (next : Number)
  /-- Numbers up or down to a bound; `started` says whether the current one was given out. -/
  | stepping (current stop step : Number) (started : Bool)
  | mapped (source : Nat) (function : Value) (place : Location)
  | filtered (source : Nat) (function : Value) (place : Location)
  /-- Elements of what a function gives for each element of the source. -/
  | flattened (source : Nat) (function : Value) (place : Location) (inner : Cursor)
  /-- The source without as many elements as are still to be skipped. -/
  | skipping (source skip : Nat)
  | finished

/-- A lazy sequence. A sequence that computes an element must not be asked for another meanwhile. -/
structure LazySequence where
  label : Value
  state : SequenceState
  running : Bool

/-- A function that a program defined: its parameter names, its body, and the scope it closes over.
What programs put in the place of the parts that are no values is kept beside them. -/
structure Closure where
  parameters : Value
  body : Expr
  scope : Nat
  name : Value
  replaced : List (String × Value)

structure LibraryCell where
  function : LibraryFunction
  name : Value

structure FormCell where
  form : SpecialForm
  name : Value

structure BoundMethod where
  receiver : Value
  function : HostFunction
  replaced : List (String × Value)

end ShellLisp
