import ShellLisp.Library.Operators

/-!
# Host functions

The functions that a host program can bind in a session, called by position with a fixed number of
arguments each.
-/

namespace ShellLisp

namespace Fault

def enumerated : List String → String
  | [] => ""
  | [only] => only
  | [first, second] => first ++ " and " ++ second
  | names => ", ".intercalate names.dropLast ++ ", and " ++ names.getLastD ""

def missingArguments (callee : String) (names : List String) : Fault :=
  let noun := if names.length = 1 then "argument" else "arguments"
  ⟨.type, callee ++ "() missing " ++ toString names.length ++ " required positional " ++ noun ++
    ": " ++ enumerated (names.map fun name => "'" ++ name ++ "'")⟩

def excessArguments (callee : String) (expected found : Nat) : Fault :=
  let noun := if expected = 1 then "argument" else "arguments"
  let verb := if found = 1 then "was" else "were"
  ⟨.type, callee ++ "() takes " ++ toString expected ++ " positional " ++ noun ++ " but " ++
    toString found ++ " " ++ verb ++ " given"⟩

def notOneArgument (callee : String) (found : Nat) : Fault :=
  ⟨.type, callee ++ "() takes exactly one argument (" ++ toString found ++ " given)"⟩

end Fault

namespace HostFunction

def parameters? : HostFunction → Option (List String)
  | .add => some ["a", "b"]
  | .greet => some ["receiver", "name"]
  | .tick => some ["x"]
  | .args | .len => none
  | .failValue | .failEmpty | .failKey | .failOs | .failRuntime => some []

def checkArguments (function : HostFunction) (arguments : List Value) : Except Fault Unit :=
  match function.parameters? with
  | none => .ok ()
  | some names =>
      if arguments.length < names.length then
        .error (.missingArguments function.name (names.drop arguments.length))
      else if names.length < arguments.length then
        .error (.excessArguments function.name names.length arguments.length)
      else .ok ()

def keyed (store : Store) (receiver : Value) (key : String) : Except Fault Value :=
  match receiver with
  | .map ref =>
      match (store.map ref).get? (.string key) with
      | some value => .ok value
      | none => .error ⟨.key, Text.literal key⟩
  | .string _ => .error ⟨.type, "string indices must be integers, not 'str'"⟩
  | .array _ => .error ⟨.type, "list indices must be integers or slices, not str"⟩
  | .tuple _ => .error ⟨.type, "tuple indices must be integers or slices, not str"⟩
  | other => .error (.notSubscriptable other.typeName)

def length (store : Store) : Value → Except Fault Nat
  | .string text => .ok text.length
  | .tuple items => .ok items.length
  | .array ref => .ok (store.array ref).size
  | .map ref => .ok (store.map ref).size
  | other => .error (.noLength other.typeName)

def call (function : HostFunction) (arguments : List Value) : Eval Value := do
  Eval.lift (function.checkArguments arguments)
  match function, arguments with
  | .add, [a, b] => Operator.add a b
  | .greet, [receiver, name] => do
      let greeting ← Eval.lift (keyed (← get).store receiver "greeting")
      Operator.add (← Operator.add greeting (.string " ")) name
  | .tick, [value] => do
      Eval.emit (.ticked value)
      return value
  | .args, arguments => Eval.newArray arguments.toArray
  | .len, [value] => do return .int (← Eval.lift (length (← get).store value))
  | .len, arguments => Eval.fault (.notOneArgument "len" arguments.length)
  | .failValue, _ => Eval.fault ⟨.value, "bad value"⟩
  | .failEmpty, _ => Eval.fault ⟨.value, ""⟩
  | .failKey, _ => Eval.fault ⟨.key, "'k'"⟩
  | .failOs, _ => Eval.fault ⟨.system, "disk on fire"⟩
  | .failRuntime, _ => Eval.fault ⟨.state, "boom"⟩
  | _, _ => return .null

end HostFunction

end ShellLisp
