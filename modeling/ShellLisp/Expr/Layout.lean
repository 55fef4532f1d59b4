import ShellLisp.Expr
import ShellLisp.Json

/-!
# Laid-out expressions

The written form of an expression for people: forms that do not fit a line are broken over several,
leaves can be coloured by what they are, and what lies too deep is left out. The decisions come from
printing options, which are plain data under four names. `layout` goes through any tree; a whole tree
is printed with `laidOut`, which first sees to it that the lengths of its forms can be measured.
-/

namespace ShellLisp

/-- A number to compare with, or data of another type, with which nothing can be compared. -/
inductive Bound
  | number (value : Number)
  | other (type : String)

/-- The bound that data gives; true and false count as one and zero. -/
def Bound.ofJson : Json → Bound
  | .number value => .number value
  | .bool value => .number (.int (if value then 1 else 0))
  | data => .other data.typeName

def Bound.reachedBy (bound : Bound) (n : Int) : Except Fault Bool :=
  match bound with
  | .number value => .ok (value.lessOrEqual (.int n))
  | .other type => .error (.unordered ">=" "int" type)

def Bound.admits (bound : Bound) (n : Int) : Except Fault Bool :=
  match bound with
  | .number value => .ok ((Number.int n).lessOrEqual value)
  | .other type => .error (.unordered "<=" "int" type)

/-- Printing options as they are given: names with data, in order. -/
abbrev PrintOptions := List (String × Json)

def defaultOptions : PrintOptions :=
  [("max_line_length", .number (.int 80)), ("max_depth", .number (.int 8)),
    ("display_legend", .bool false), ("color", .bool true)]

structure Style where
  width : Bound
  depth : Bound
  legend : Bool
  colour : Bool

/-- The style that options ask for; what they leave out is as in `defaultOptions`. -/
def Style.ofOptions (options : PrintOptions) : Style :=
  let get (name : String) : Json :=
    (options.lookup name).getD ((defaultOptions.lookup name).getD .null)
  { width := .ofJson (get "max_line_length")
    depth := .ofJson (get "max_depth")
    legend := (get "display_legend").truthy
    colour := (get "color").truthy }

inductive Colour
  | command
  | variable
  | string
  | number
  | literal
  | function
  | special
  deriving DecidableEq, Repr

def Colour.start : Colour → String
  | .command => "\x1b[94m"
  | .variable => "\x1b[93m"
  | .string => "\x1b[92m"
  | .number => "\x1b[96m"
  | .literal => "\x1b[95m"
  | .function => "\x1b[92m"
  | .special => "\x1b[90m"

def Colour.stop : String := "\x1b[0m"

def Colour.paint (colour : Colour) (text : String) : String := colour.start ++ text ++ Colour.stop

namespace Expr

/-- The commands that are printed as part of the language. -/
def specialNames : List String :=
  ["def", "defn", "fn", "if", "for", "let", "delete", "and", "or", "eval", "do"]

def colour : Expr → Colour
  | .command _ name => if specialNames.contains name then .special else .command
  | .variable _ _ => .variable
  | .value _ (.word _) => .string
  | .value _ (.quoted _) => .string
  | .value _ (.number _ _) => .number
  | _ => .literal

def leafText (style : Style) (e : Expr) : String :=
  if style.colour then e.colour.paint e.text else e.text

def legend : String :=
  "Color Key: " ++ " | ".intercalate
    [Colour.command.paint "command", Colour.special.paint "special form",
      Colour.variable.paint "$variable", Colour.string.paint "string", Colour.number.paint "number",
      Colour.literal.paint "literal"] ++ "\n"

def padding (indent : Int) : String := "".pushn ' ' (2 * indent.toNat)

/-- The printed items of a form between its brackets, on one line or one to a line. -/
def arrange (opening closing : String) (indent : Int) (oneLine : Bool) (parts : List String) :
    String :=
  if oneLine then opening ++ " ".intercalate parts ++ closing
  else opening ++ ("\n" ++ padding indent ++ "  ").intercalate parts ++ closing

/-- A form, printed, given its length on one line and its printed items. -/
def layoutForm (style : Style) (indent : Int) (depth : Nat) (opening closing : String)
    (length : Nat) (items : Unit → Except Fault (List String)) : Except Fault String := do
  let key := if style.legend && indent == 0 && style.colour then legend else ""
  if ← style.depth.reachedBy depth then return key ++ "…"
  let parts ← items ()
  if parts.isEmpty then return key ++ opening ++ closing
  let oneLine ← style.width.admits (length + 2 * indent)
  return key ++ arrange opening closing indent oneLine parts

def layoutLeaf (style : Style) (indent : Int) (depth : Nat) (leaf : Expr) :
    Except Fault String := do
  let key := if style.legend && indent == 0 && style.colour then legend else ""
  if ← style.depth.reachedBy depth then return key ++ "…"
  return key ++ leafText style leaf

mutual

def layout (style : Style) (indent : Int) (depth : Nat) : Expr → Except Fault String
  | .call place body =>
      layoutForm style indent depth "(" ")" (chars (.call place body)).length fun _ =>
        layoutAll style (indent + 1) (depth + 1) body
  | .array place body =>
      layoutForm style indent depth "[" "]" (chars (.array place body)).length fun _ =>
        layoutAll style (indent + 1) (depth + 1) body
  | .map place body =>
      layoutForm style indent depth "\x7b" "\x7d" (chars (.map place body)).length fun _ =>
        layoutAll style (indent + 1) (depth + 1) body
  | leaf => layoutLeaf style indent depth leaf

def layoutAll (style : Style) (indent : Int) (depth : Nat) : List Expr → Except Fault (List String)
  | [] => .ok []
  | e :: rest => do
      let first ← layout style indent depth e
      let others ← layoutAll style indent depth rest
      return first :: others

end

/-- A whole tree, printed; one that is too deep cannot be measured. -/
def laidOut (style : Style) (e : Expr) : Except Failure String := do
  let measured ← e.checkDepth depthLimits.values
  Failure.lift (measured.layout style 0 0)

end Expr

end ShellLisp
