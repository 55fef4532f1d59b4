import ShellLisp.Problem
import ShellLisp.Store
import ShellLisp.Text.Literal

/-!
# Values inside messages

The form in which a value is shown inside a message, in a template, and in the listing of a scope.
Texts are shown as literals, a container inside itself as dots between its brackets. Functions and
lazy sequences are shown by their names, which programs may change to any value. To show a function
whose parameters were changed to a lazy sequence would use that sequence up, and is not followed here.
-/

namespace ShellLisp.Store

def bracketed (opening closing : String) (parts : List String) : String :=
  opening ++ ", ".intercalate parts ++ closing

/-- The values that a value gives one by one without being changed by it. A lazy sequence would be. -/
def fixedElements (store : Store) : Value → Except Fault (List Value)
  | .array ref => .ok (store.array ref).toList
  | .map ref => .ok ((store.map ref).toList.map (·.1))
  | .tuple items => .ok items
  | .string text => .ok (text.toList.map fun c => .string c.toString)
  | .sequence ref => .error (.internal (Value.sequence ref).typeName "iterator")
  | other => .error (.notIterable other.typeName)

/-- What a function is shown as: what it is called, and its parameters in brackets. -/
def functionText (label : String) (names : List String) : String :=
  "<" ++ label ++ " [" ++ " ".intercalate (names.map ("$" ++ ·)) ++ "]>"

def methodName (method : BoundMethod) : String :=
  match List.lookup "function" method.replaced with
  | none => method.function.name
  | some (.host function) => function.name
  | some _ => "function"

/-- A value as a literal. The containers that it is shown within are given, and the number of levels
that may follow. -/
def literalWithin (store : Store) : Nat → List Value → Value → Except Failure String
  | 0, _, _ => .error .tooDeep
  | depth + 1, within, value =>
      let inner := literalWithin store depth
      let shown (within : List Value) : Value → Except Failure String
        | .string text => .ok text
        | other => inner within other
      match value with
      | .null => .ok "None"
      | .bool b => .ok (if b then "True" else "False")
      | .number n => Failure.lift n.text
      | .string text => .ok (Text.literal text)
      | .complex => .ok "complex"
      | .tuple items => do
          let parts ← items.mapM (inner within)
          return bracketed "(" (if parts.length = 1 then ",)" else ")") parts
      | .array ref => do
          if within.any value.sameKey then return "[...]"
          let parts ← (store.array ref).toList.mapM (inner (value :: within))
          return bracketed "[" "]" parts
      | .map ref => do
          if within.any value.sameKey then return "\x7b...\x7d"
          let parts ← (store.map ref).toList.mapM fun (key, item) => do
            let name ← inner (value :: within) key
            let text ← inner (value :: within) item
            return name ++ ": " ++ text
          return bracketed "\x7b" "\x7d" parts
      | .library ref => do
          let name ← shown within ((store.libraries[ref]?.map (·.name)).getD .null)
          return "<lib " ++ name ++ ">"
      | .form ref => do
          let name ← shown within ((store.forms[ref]?.map (·.name)).getD .null)
          return "<macro " ++ name ++ ">"
      | .closure ref =>
          match store.closures[ref]? with
          | none => .ok "<fn []>"
          | some closure => do
              let parameters ← Failure.lift (store.fixedElements closure.parameters)
              let names ← parameters.mapM (shown within)
              let label ←
                if store.truthy closure.name then ("fn " ++ ·) <$> shown within closure.name
                else pure "fn"
              return functionText label names
      | .bound ref =>
          .ok ("<bound " ++ ((store.bounds[ref]?.map methodName).getD "function") ++ ">")
      | .sequence ref => do
          let label ← shown within ((store.sequences[ref]?.map (·.label)).getD .null)
          return "<" ++ label ++ " sequence>"
      | .object _ => .ok "<host object>"
      | .host .len => .ok "<built-in function len>"
      | .host function => .ok ("<function " ++ function.name ++ ">")

def literal (store : Store) (value : Value) : Except Failure String :=
  store.literalWithin depthLimits.values [] value

/-- A value as it stands in a message: a text as it is, anything else as a literal. -/
def shown (store : Store) : Value → Except Failure String
  | .string text => .ok text
  | other => store.literal other

def bindingsText (store : Store) (scope : Nat) : Except Failure String := do
  let parts ← (store.scopes.bindings scope).mapM fun (name, value) => do
    return name ++ ": " ++ (← store.literal value)
  return bracketed "\x7b" "\x7d" parts

/-- The bindings of a scope, with a mark when it has a parent. -/
def scopeText (store : Store) (scope : Nat) : Except Failure String := do
  let bindings ← store.bindingsText scope
  return bindings ++ (if (store.scopes.parent? scope).isSome then " -> ..." else "")

/-- The bindings of a scope and its parents; module scopes are marked. -/
def chainText (store : Store) (scope : Nat) : Except Failure String := do
  let parts ← (store.scopes.chain scope).mapM fun found => do
    let bindings ← store.bindingsText found
    return (if store.scopes.module? found = some found then "module" else "") ++ bindings
  return "<Scope chain: " ++ " -> ".intercalate parts ++ ">"

end ShellLisp.Store
