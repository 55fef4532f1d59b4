import ShellLisp.Json.Reader
import ShellLisp.Library.Strings
import ShellLisp.Text.Lines

/-!
# Functions that read text

From the text that external commands print to data: words, lines, tables, JSON and numbers.
-/

namespace ShellLisp.Parsing
open Arguments

/-- A row of a table: each key with the field in its column, or null when there is none. -/
def rowEntries : List Value → List (List Char) → Entries → Except Fault Entries
  | [], _, found => .ok found
  | key :: keys, fields, found => do
      key.checkKey
      rowEntries keys fields.tail (found.put key ((fields.head?.map Value.ofChars).getD .null))

def fields (delimiter : List Char) (line : List Char) : List (List Char) :=
  if delimiter.isEmpty then Text.words line else Text.split delimiter line

def tableLines (text : List Char) : List (List Char) :=
  ((Text.lines text).map Text.trim).filter (· ≠ [])

/-- The delimiter of a table, which may be left out, its keys and its text. -/
def tableArguments (place : Location) : List Value → Eval (String × Value × Value)
  | [keys, text] => return ("", keys, text)
  | [delimiter, keys, text] => do return (← string place delimiter, keys, text)
  | arguments => Eval.problem place (.takesBetween "table" 2 3 arguments.length)

/-- A map for each line of a text that is not blank. Fields are words, or stand around a
delimiter. -/
def table (engine : Engine) (place : Location) (arguments : List Value) : Eval Value := do
  let (delimiter, keys, text) ← tableArguments place arguments
  iterable place keys
  let text ← string place text
  let keys ← engine.collect (← Engine.elements keys)
  let rows ← (tableLines text.toList).mapM fun line => do
    Eval.newMap (← Eval.lift (rowEntries keys.toList (fields delimiter.toList line) #[]))
  Eval.newArray rows.toArray

def json (place : Location) (arguments : List Value) : Eval Value := do
  let text ← Strings.only "json" place arguments
  match Json.readText text with
  | .ok data => Eval.change fun store => store.ofJson data
  | .error (.malformed complaint) =>
      let position := Json.positionOf text complaint.rest
      Eval.problem place (.invalidJson complaint.reason position.line position.column)
  | .error (.fault found) => Eval.fault found
  | .error .tooDeep => throw .tooDeep

def number (place : Location) (arguments : List Value) : Eval Value := do
  let text := Text.trim (← Strings.only "number" place arguments)
  match Decimal.Numeral.read? text with
  | some numeral => return .number (← Eval.lift (Number.ofNumeral numeral))
  | none => Eval.problem place (.notANumber (Text.quote (String.ofList text)))

def call (engine : Engine) (place : Location) (arguments : List Value) :
    ParseFunction → Eval Value
  | .words => do Strings.array (Text.words (← Strings.only "words" place arguments))
  | .lines => do Strings.array (Text.lines (← Strings.only "lines" place arguments))
  | .table => table engine place arguments
  | .json => json place arguments
  | .number => number place arguments

end ShellLisp.Parsing
