import ShellLisp.Decimal.Rounded
import ShellLisp.Store.Literal

/-!
# Templates

Filling the places of a template with values. A place starts with a percent sign and ends with the
letter of a conversion; between them stand, each optional, a key in parentheses, flags, a width and
a precision. Values are taken in order, or from a map under the key.
-/

namespace ShellLisp

namespace Fault

def tooFewValues : Fault := ⟨.type, "not enough arguments for format string"⟩

def tooManyValues : Fault := ⟨.type, "not all arguments converted during string formatting"⟩

def incompletePlace : Fault := ⟨.value, "incomplete format"⟩

def incompleteKey : Fault := ⟨.value, "incomplete format key"⟩

/-- A place with a key where the values are not in a map. -/
def keyWithoutMap : Fault := ⟨.type, "format requires a mapping"⟩

def starNotInteger : Fault := ⟨.type, "* wants int"⟩

def unknownConversion (letter : Char) (position : Nat) : Fault :=
  let shown := if 31 ≤ letter.toNat ∧ letter.toNat ≤ 126 then letter else '?'
  ⟨.value, "unsupported format character '" ++ shown.toString ++ "' (0x" ++
    String.ofList (Nat.toDigits 16 letter.toNat) ++ ") at index " ++ toString position⟩

def conversionNeeds (letter : Char) (needed type : String) : Fault :=
  ⟨.type, "%" ++ letter.toString ++ " format: " ++ needed ++ " is required, not " ++ type⟩

end Fault

structure TemplateFlags where
  left : Bool
  zero : Bool
  plus : Bool
  blank : Bool
  alternate : Bool

namespace TemplateFlags

def empty : TemplateFlags := ⟨false, false, false, false, false⟩

def add? (flags : TemplateFlags) : Char → Option TemplateFlags
  | '-' => some { flags with left := true }
  | '0' => some { flags with zero := true }
  | '+' => some { flags with plus := true }
  | ' ' => some { flags with blank := true }
  | '#' => some { flags with alternate := true }
  | _ => none

def read (flags : TemplateFlags) : List Char → TemplateFlags × List Char
  | [] => (flags, [])
  | c :: rest =>
      match flags.add? c with
      | some more => read more rest
      | none => (flags, c :: rest)

end TemplateFlags

structure Place where
  flags : TemplateFlags
  width : Nat
  precision : Option Nat

/-- The values that are still to be taken, and the value that keys are looked up in. -/
structure Supply where
  values : List Value
  source : Option Value

namespace Supply

/-- The values of a template: a tuple gives its elements, anything else itself. -/
def ofValue : Value → Supply
  | .tuple items => ⟨items, none⟩
  | .map ref => ⟨[.map ref], some (.map ref)⟩
  | .array ref => ⟨[.array ref], some (.array ref)⟩
  | other => ⟨[other], none⟩

def take (supply : Supply) : Except Fault (Value × Supply) :=
  match supply.values with
  | [] => .error .tooFewValues
  | value :: rest => .ok (value, { supply with values := rest })

end Supply

namespace Place

def starred (supply : Supply) : Except Fault (Int × Supply) := do
  let (value, after) ← supply.take
  match value with
  | .number (.int n) => return (n, after)
  | .bool b => return (if b then 1 else 0, after)
  | _ => throw .starNotInteger

def digits (text : List Char) : Nat × List Char :=
  (Text.digitsValue (text.takeWhile Char.isDigit), text.dropWhile Char.isDigit)

def widthLimit : Nat := twoTo 63

def precisionLimit : Nat := twoTo 31

def readWidth (flags : TemplateFlags) (supply : Supply) :
    List Char → Except Fault (TemplateFlags × Nat × Supply × List Char)
  | '*' :: rest => do
      let (n, after) ← starred supply
      if (widthLimit : Int) ≤ n.natAbs then
        throw ⟨.overflow, "Python int too large to convert to C ssize_t"⟩
      return ({ flags with left := flags.left || n < 0 }, n.natAbs, after, rest)
  | text => do
      let (width, rest) := digits text
      if widthLimit ≤ width then throw ⟨.value, "width too big"⟩
      return (flags, width, supply, rest)

def readPrecision (supply : Supply) :
    List Char → Except Fault (Option Nat × Supply × List Char)
  | '.' :: '*' :: rest => do
      let (n, after) ← starred supply
      if (precisionLimit : Int) ≤ n.natAbs then
        throw ⟨.overflow, "Python int too large to convert to C int"⟩
      return (some n.toNat, after, rest)
  | '.' :: text => do
      let (precision, rest) := digits text
      if precisionLimit ≤ precision then throw ⟨.value, "precision too big"⟩
      return (some precision, supply, rest)
  | text => .ok (none, supply, text)

def dropSize : List Char → List Char
  | 'h' :: rest | 'l' :: rest | 'L' :: rest => rest
  | text => text

/-- The sign of a number with a sign, or what the flags put in its place, and the rest. -/
def splitSign (flags : TemplateFlags) : List Char → List Char × List Char
  | '-' :: rest => (['-'], rest)
  | '+' :: rest => (['+'], rest)
  | text => (if flags.plus then ['+'] else if flags.blank then [' '] else [], text)

/-- Fills the width of a place; zeros go between the sign and base of a number and its digits. -/
def arrange (place : Place) (numeric : Bool) (base : Nat) (text : List Char) : List Char :=
  let (sign, unsigned) := if numeric then splitSign place.flags text else ([], text)
  let head := sign ++ unsigned.take base
  let tail := unsigned.drop base
  let missing := place.width - (head.length + tail.length)
  if place.flags.left then head ++ tail ++ List.replicate missing ' '
  else if numeric && place.flags.zero then head ++ List.replicate missing '0' ++ tail
  else List.replicate missing ' ' ++ head ++ tail

def integerText (place : Place) (n : Int) (base : List Char) (digits : List Char) : List Char :=
  let shown := Decimal.padZeros (place.precision.getD 0) digits
  (if n < 0 then ['-'] else []) ++ (if place.flags.alternate then base else []) ++ shown

def wholeNumber (letter : Char) (value : Value) : Except Fault Int :=
  match value.numeric? with
  | some n => n.truncate
  | none => .error (.conversionNeeds letter "a real number" value.typeName)

def integer (letter : Char) (value : Value) : Except Fault Int :=
  match value.numeric? with
  | some (.int n) => .ok n
  | _ => .error (.conversionNeeds letter "an integer" value.typeName)

def realNumber (value : Value) : Except Fault Float :=
  match value.numeric? with
  | some n => n.toFloat
  | none => .error ⟨.type, "must be real number, not " ++ value.typeName⟩

def character (value : Value) : Except Fault Char :=
  match value with
  | .string text =>
      match text.toList with
      | [c] => .ok c
      | _ => .error ⟨.type, "%c requires int or char"⟩
  | other =>
      match other.numeric? with
      | some (.int n) =>
          if n < 0 ∨ 0x110000 ≤ n then .error ⟨.overflow, "%c arg not in range(0x110000)"⟩
          else .ok (Char.ofNat n.toNat)
      | _ => .error ⟨.type, "%c requires int or char"⟩

def roundedForm? : Char → Option Decimal.RoundedForm
  | 'e' | 'E' => some .exponential
  | 'f' | 'F' => some .fixed
  | 'g' | 'G' => some .general
  | _ => none

def likeLetter (letter : Char) (text : List Char) : List Char :=
  if letter.isUpper then text.map Char.toUpper else text

def textual (place : Place) (text : String) : List Char :=
  let shown := match place.precision with
    | some most => text.toList.take most
    | none => text.toList
  place.arrange false 0 shown

/-- A value in its place, converted as a letter says. The position is that of the letter. -/
def fill (place : Place) (store : Store) (letter : Char) (position : Nat) (value : Value) :
    Except Failure (List Char) :=
  let base := if place.flags.alternate then 2 else 0
  match letter with
  | 's' => return place.textual (← store.shown value)
  | 'r' => return place.textual (← store.literal value)
  | 'a' => do
      let text ← store.literal value
      return place.textual (String.ofList (text.toList.flatMap fun c =>
        if c.toNat < 128 then [c] else Text.codeEscape c))
  | 'd' | 'i' | 'u' => do
      let n ← Failure.lift (wholeNumber letter value)
      let written ← Failure.lift (Number.integerText n.natAbs)
      return place.arrange true 0 (place.integerText n [] written.toList)
  | 'o' => do
      let n ← Failure.lift (integer letter value)
      return place.arrange true base (place.integerText n ['0', 'o'] (Nat.toDigits 8 n.natAbs))
  | 'x' | 'X' => do
      let n ← Failure.lift (integer letter value)
      let text := place.integerText n ['0', 'x'] (Nat.toDigits 16 n.natAbs)
      return place.arrange true base (likeLetter letter text)
  | 'c' => do
      let c ← Failure.lift (character value)
      return place.arrange false 0 [c]
  | _ =>
      match roundedForm? letter with
      | none => .error (.fault (.unknownConversion letter position))
      | some form => do
          let x ← Failure.lift (realNumber value)
          let text := Decimal.roundedText form place.flags.alternate (place.precision.getD 6)
            (.ofFloat x)
          return place.arrange true 0 (likeLetter letter text)

end Place

namespace Template

def readKey : Nat → List Char → List Char → Option (List Char × List Char)
  | _, _, [] => none
  | depth, found, '(' :: rest => readKey (depth + 1) ('(' :: found) rest
  | 0, found, ')' :: rest => some (found.reverse, rest)
  | depth + 1, found, ')' :: rest => readKey depth (')' :: found) rest
  | depth, found, c :: rest => readKey depth (c :: found) rest

def keyed (store : Store) (source : Value) (key : List Char) : Except Fault Value :=
  match source with
  | .map ref =>
      match (store.map ref).get? (.ofChars key) with
      | some value => .ok value
      | none => .error ⟨.key, Text.literal (String.ofList key)⟩
  | _ => .error ⟨.type, "list indices must be integers or slices, not str"⟩

/-- Reads an optional key, which makes the value under it the only value. -/
def takeKey (store : Store) (supply : Supply) : List Char → Except Fault (Supply × List Char)
  | '(' :: rest =>
      match supply.source with
      | none => .error .keyWithoutMap
      | some source =>
          match readKey 0 [] rest with
          | none => .error .incompleteKey
          | some (key, after) => do
              let value ← keyed store source key
              return ({ supply with values := [value] }, after)
  | text => .ok (supply, text)

/-- Fills the place that starts behind a percent sign. The template's length tells positions. -/
def fillPlace (store : Store) (length : Nat) (supply : Supply) (text : List Char) :
    Except Failure (List Char × Supply × List Char) := do
  let (supply, text) ← Failure.lift (takeKey store supply text)
  let (flags, text) := TemplateFlags.empty.read text
  let (flags, width, supply, text) ← Failure.lift (Place.readWidth flags supply text)
  let (precision, supply, text) ← Failure.lift (Place.readPrecision supply text)
  match Place.dropSize text with
  | [] => throw (.fault .incompletePlace)
  | letter :: rest => do
      let (value, supply) ← Failure.lift supply.take
      let position := length - rest.length - 1
      let filled ← Place.fill ⟨flags, width, precision⟩ store letter position value
      return (filled, supply, rest)

/-- Fills the places of a template, of which no more than `bound` characters are left. Two percent
signs stand for one. -/
def fillWithin (store : Store) (length : Nat) : Nat → Supply → List Char →
    Except Failure (List Char × Supply)
  | 0, supply, _ => .ok ([], supply)
  | _ + 1, supply, [] => .ok ([], supply)
  | bound + 1, supply, '%' :: '%' :: rest => do
      let (others, supply) ← fillWithin store length bound supply rest
      return ('%' :: others, supply)
  | bound + 1, supply, '%' :: rest => do
      let (filled, supply, rest) ← fillPlace store length supply rest
      let (others, supply) ← fillWithin store length bound supply rest
      return (filled ++ others, supply)
  | bound + 1, supply, c :: rest => do
      let (others, supply) ← fillWithin store length bound supply rest
      return (c :: others, supply)

/-- A template filled with the values that a value gives; no value must be left over, unless keys
could have been looked up in it. -/
def fill (store : Store) (template : String) (value : Value) : Except Failure String := do
  let text := template.toList
  let (filled, supply) ← fillWithin store text.length (text.length + 1) (.ofValue value) text
  if supply.source.isNone && !supply.values.isEmpty then throw (.fault .tooManyValues)
  return String.ofList filled

end Template

end ShellLisp
