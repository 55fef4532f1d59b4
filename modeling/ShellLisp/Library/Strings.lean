import ShellLisp.Library.Function
import ShellLisp.Library.JsonText
import ShellLisp.Text.Case
import ShellLisp.Text.Search

/-!
# Functions on strings

The functions of the string library. Positions and lengths count characters, and white space and
letter case are those of Unicode.
-/

namespace ShellLisp.Strings
open Arguments

def only (callee : String) (place : Location) (arguments : List Value) : Eval (List Char) := do
  return (← string place (← one callee place arguments)).toList

def pair (callee : String) (place : Location) (arguments : List Value) :
    Eval (List Char × List Char) := do
  let (text, part) ← two callee place arguments
  let text ← string place text
  let part ← string place part
  return (text.toList, part.toList)

def array (texts : List (List Char)) : Eval Value := Eval.newTexts (texts.map String.ofList)

/-- The words of a text, or its pieces around a separator; an empty separator stands between all
characters. -/
def split (place : Location) (arguments : List Value) : Eval Value := do
  let (text, given) ← oneOrTwo "split" place arguments
  let text ← string place text
  match given with
  | none => array (Text.words text.toList)
  | some separator => do
      let separator ← string place separator
      if separator.isEmpty then array (text.toList.map ([·]))
      else array (Text.split separator.toList text.toList)

def replace (place : Location) (arguments : List Value) : Eval Value := do
  let (text, old, new) ← three "replace" place arguments
  let text ← string place text
  let old ← string place old
  let new ← string place new
  return .ofChars (Text.replace old.toList new.toList text.toList)

def concat (arguments : List Value) : Eval Value := do
  let parts ← arguments.mapM Eval.print
  return .string (String.join parts)

def toJson (engine : Engine) (place : Location) (arguments : List Value) : Eval Value := do
  let (value, indentation) ← oneOrTwo "toJson" place arguments
  return .string (← JsonText.text engine value (indentation.getD .null))

def call (engine : Engine) (place : Location) (arguments : List Value) :
    StringFunction → Eval Value
  | .length => do return .int (← only "length" place arguments).length
  | .split => split place arguments
  | .trim => do return .ofChars (Text.trim (← only "trim" place arguments))
  | .upper => do return .ofChars (Text.upper (← only "upper" place arguments))
  | .lower => do return .ofChars (Text.lower (← only "lower" place arguments))
  | .replace => replace place arguments
  | .startsWith => do
      let (text, part) ← pair "startsWith" place arguments
      return .bool (part.isPrefixOf text)
  | .endsWith => do
      let (text, part) ← pair "endsWith" place arguments
      return .bool (part.isSuffixOf text)
  | .contains => do
      let (text, part) ← pair "contains" place arguments
      return .bool (Text.hasPart part text)
  | .concat => concat arguments
  | .toJson => toJson engine place arguments

end ShellLisp.Strings
