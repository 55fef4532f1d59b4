import ShellLisp.Expr.Layout
import ShellLisp.Store.Literal
import ShellLisp.Text.Quoted

/-!
# Printed values

Values as source text writes them: arrays in square brackets, maps in braces, the texts inside them
quoted. Outermost texts may be printed as they are. A value with a finite depth can also be printed
in colours, which are put around its leaves.
-/

namespace ShellLisp.Store

def leafText (store : Store) (quoted : Bool) : Value → Except Failure String
  | .null => .ok "null"
  | .bool b => .ok (if b then "true" else "false")
  | .string text => .ok (if quoted then Text.quote text else text)
  | .number n => Failure.lift n.text
  | .host function => .ok ("<function " ++ function.name ++ ">")
  | other => store.literal other

/-- A value that is printed with the given way to print leaves, as deep as given. -/
def textWithin (store : Store) (leaf : Bool → Value → Except Failure String) :
    Nat → Bool → Value → Except Failure String
  | 0, _, _ => .error .tooDeep
  | depth + 1, quoted, value =>
      let inner := textWithin store leaf depth true
      let row (items : List Value) : Except Failure String := do
        let parts ← items.mapM inner
        return "[" ++ " ".intercalate parts ++ "]"
      match value with
      | .tuple items => row items
      | .array ref => row (store.array ref).toList
      | .map ref => do
          let parts ← (store.map ref).toList.mapM fun (key, item) => do
            let name ← inner key
            let text ← inner item
            return name ++ " " ++ text
          return "\x7b" ++ " ".intercalate parts ++ "\x7d"
      | other => leaf quoted other

/-- A value, printed; outermost texts are quoted only when asked for. -/
def text (store : Store) (quoted : Bool) (value : Value) : Except Failure String :=
  store.textWithin (leafText store) depthLimits.values quoted value

def colour? : Value → Option Colour
  | .null | .bool _ => some .literal
  | .number _ => some .number
  | .string _ => some .string
  | .form _ => some .special
  | .library _ | .closure _ | .bound _ | .host _ => some .function
  | _ => none

def colouredLeaf (store : Store) (value : Value) : Except Failure String := do
  let text ← store.leafText true value
  return match colour? value with
    | some colour => colour.paint text
    | none => text

def coloured (store : Store) (style : Style) (value : Value) : Except Failure String :=
  if style.colour then
    store.textWithin (fun _ leaf => store.colouredLeaf leaf) depthLimits.values true value
  else store.text true value

/-- A value as an interactive session prints it: texts of several lines as they are, on lines of
their own. -/
def display (store : Store) (style : Style) (value : Value) : Except Failure String :=
  match value with
  | .string text =>
      if text.toList.contains '\n' then .ok ("\n" ++ text) else store.coloured style value
  | _ => store.coloured style value

end ShellLisp.Store
