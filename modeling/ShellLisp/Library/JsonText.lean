import ShellLisp.Evaluation.Printed
import ShellLisp.Json.Writer
import ShellLisp.Library.Operators

/-!
# Values as JSON

The JSON text of a value. Lazy sequences are written as arrays of their elements, which are thereby
used up; functions and host objects are written as strings of their printed form. A container inside
itself cannot be written.
-/

namespace ShellLisp.JsonText

def keyName : Value → Except Fault String
  | .null => .ok "null"
  | .bool b => .ok (if b then "true" else "false")
  | .number n => Json.numberText n
  | .string text => .ok text
  | other => .error (.unwritableKey other.typeName)

/-- Whether a value is among those that it stands inside of. -/
def checkCircle (within : List Value) (value : Value) : Eval Unit :=
  if within.any value.sameKey then Eval.fault .circular else return

/-- The text of a value at a level of nesting, inside the values given. -/
def textWithin (engine : Engine) (spacing : Json.Spacing) :
    Nat → List Value → Nat → Value → Eval String
  | 0, _, _, _ => throw .tooDeep
  | depth + 1, within, level, value =>
      let inner := textWithin engine spacing depth
      let row (items : List Value) : Eval String := do
        let parts ← items.mapM (inner (value :: within) (level + 1))
        return Json.bracketed spacing level "[" "]" parts
      match value with
      | .null => return "null"
      | .bool b => return if b then "true" else "false"
      | .number n => Eval.lift (Json.numberText n)
      | .string text => return Json.quoted text
      | .tuple items => row items
      | .array ref => do
          checkCircle within value
          row (← Eval.ask fun store => store.array ref).toList
      | .map ref => do
          checkCircle within value
          let entries ← Eval.ask fun store => store.map ref
          let parts ← entries.toList.mapM fun (key, item) => do
            let name ← Eval.lift (keyName key)
            return Json.entryText name (← inner (value :: within) (level + 1) item)
          return Json.bracketed spacing level "\x7b" "\x7d" parts
      | .sequence ref => do
          checkCircle within value
          row (← engine.collect (.sequence ref)).toList
      | other => do
          return Json.quoted (← Eval.print other)

/-- The spacing that an indentation asks for: a number of spaces, or a text for each level. -/
def spacingOf (indentation : Value) : Eval Json.Spacing := do
  match indentation with
  | .null => return .oneLine
  | .string unit => return .indented unit
  | other => do
      let count ← Operator.repetitions 1 true other
      return .indented ("".pushn ' ' count)

def text (engine : Engine) (value indentation : Value) : Eval String := do
  match value with
  | .string text => return Json.quoted text
  | _ =>
      let spacing ← spacingOf indentation
      textWithin engine spacing depthLimits.trees [] 0 value

end ShellLisp.JsonText
