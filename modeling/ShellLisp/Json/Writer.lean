import ShellLisp.Json
import ShellLisp.Text.Literal

/-!
# Writing JSON

The spelling of JSON data in ASCII: characters outside the printed range of ASCII are escaped, those
beyond the first plane as two escapes. `Spacing` says how the items of a container are set apart.
-/

namespace ShellLisp.Json

def codeEscape (n : Nat) : List Char := '\\' :: 'u' :: Text.hexadecimal 4 n

def escapeChar (c : Char) : List Char :=
  if c = '"' then ['\\', '"']
  else if c = '\\' then ['\\', '\\']
  else if c = '\n' then ['\\', 'n']
  else if c = '\r' then ['\\', 'r']
  else if c = '\t' then ['\\', 't']
  else if c = '\x0c' then ['\\', 'f']
  else if c = '\x08' then ['\\', 'b']
  else if ' ' ≤ c ∧ c ≤ '~' then [c]
  else if c.toNat < 0x10000 then codeEscape c.toNat
  else
    let offset := c.toNat - 0x10000
    codeEscape (0xD800 + offset / 1024) ++ codeEscape (0xDC00 + offset % 1024)

def quoted (text : String) : String :=
  String.ofList ('"' :: text.toList.flatMap escapeChar ++ ['"'])

/-- The words for what is no finite number differ from those of values. -/
def numberLayout : Decimal.NumberLayout :=
  { Decimal.valueLayout with infinity := "Infinity", notANumber := "NaN" }

def numberText : Number → Except Fault String
  | .int n => Number.integerText n
  | .float x => .ok (numberLayout.render (.ofFloat x))

/-- How containers are laid out: on one line, or with a unit of indentation for each level. -/
inductive Spacing
  | oneLine
  | indented (unit : String)

def repeatUnit (unit : String) (count : Nat) : String := String.join (List.replicate count unit)

def bracketed (spacing : Spacing) (level : Nat) (opening closing : String) (items : List String) :
    String :=
  if items.isEmpty then opening ++ closing
  else
    match spacing with
    | .oneLine => opening ++ ", ".intercalate items ++ closing
    | .indented unit =>
        let line := "\n" ++ repeatUnit unit (level + 1)
        opening ++ line ++ ("," ++ line).intercalate items ++ "\n" ++ repeatUnit unit level ++
          closing

def entryText (key value : String) : String := quoted key ++ ": " ++ value

def text : Json → Except Fault String
  | .null => .ok "null"
  | .bool b => .ok (if b then "true" else "false")
  | .number n => numberText n
  | .string s => .ok (quoted s)
  | .array items => do return bracketed .oneLine 0 "[" "]" (← texts items)
  | .object entries => do return bracketed .oneLine 0 "\x7b" "\x7d" (← entryTexts entries)
where
  texts : List Json → Except Fault (List String)
    | [] => .ok []
    | item :: rest => do return (← text item) :: (← texts rest)
  entryTexts : List (String × Json) → Except Fault (List String)
    | [] => .ok []
    | (key, value) :: rest => do return entryText key (← text value) :: (← entryTexts rest)

end ShellLisp.Json
