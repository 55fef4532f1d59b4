import ShellLisp.Json
import ShellLisp.Problem

/-!
# Reading JSON

Plain data from JSON text, which may also hold the words `NaN`, `Infinity` and `-Infinity`. A reader
takes a value off the start of a text and gives what is left; a complaint names what was expected
and keeps the text from the place where it was expected, from which its offset, line and column
follow.
-/

namespace ShellLisp.Json

/-- What is wrong with a JSON text, and the text from there on. -/
structure Complaint where
  reason : String
  rest : List Char

inductive ReadFailure
  | malformed (complaint : Complaint)
  | fault (fault : Fault)
  | tooDeep

def expected {α : Type} (reason : String) (rest : List Char) : Except ReadFailure α :=
  .error (.malformed ⟨reason, rest⟩)

def skipBlanks (text : List Char) : List Char :=
  text.dropWhile fun c => c = ' ' || c = '\t' || c = '\n' || c = '\r'

def hexDigit? (c : Char) : Option Nat :=
  if '0' ≤ c ∧ c ≤ '9' then some (c.toNat - '0'.toNat)
  else if 'a' ≤ c ∧ c ≤ 'f' then some (c.toNat - 'a'.toNat + 10)
  else if 'A' ≤ c ∧ c ≤ 'F' then some (c.toNat - 'A'.toNat + 10)
  else none

def hexValue? (digits : List Char) : Option Nat :=
  digits.foldlM (fun value c => (hexDigit? c).map (16 * value + ·)) 0

def joinSurrogates (high low : Nat) : Nat := 0x10000 + (high - 0xD800) * 1024 + (low - 0xDC00)

/-- Reads the second of a pair of surrogates, when there is one. -/
def lowSurrogate? (text : List Char) : Except ReadFailure (Option Nat) :=
  match text with
  | '\\' :: 'u' :: more =>
      if 4 < more.length then
        match hexValue? (more.take 4) with
        | none => expected "Invalid \\uXXXX escape" ('u' :: more)
        | some low => .ok (if 0xDC00 ≤ low ∧ low ≤ 0xDFFF then some low else none)
      else .ok none
  | _ => .ok none

def readCode (text : List Char) : Except ReadFailure (Char × List Char) :=
  if text.length ≤ 4 then expected "Invalid \\uXXXX escape" ('u' :: text)
  else
    match hexValue? (text.take 4) with
    | none => expected "Invalid \\uXXXX escape" ('u' :: text)
    | some code => do
        let rest := text.drop 4
        if 0xD800 ≤ code ∧ code ≤ 0xDBFF then
          match ← lowSurrogate? rest with
          | some low => return (Char.ofNat (joinSurrogates code low), rest.drop 6)
          | none => return ('\uFFFD', rest)
        else if 0xDC00 ≤ code ∧ code ≤ 0xDFFF then return ('\uFFFD', rest)
        else return (Char.ofNat code, rest)

def shortEscape? : Char → Option Char
  | '"' => some '"'
  | '\\' => some '\\'
  | '/' => some '/'
  | 'b' => some '\x08'
  | 'f' => some '\x0c'
  | 'n' => some '\n'
  | 'r' => some '\r'
  | 't' => some '\t'
  | _ => none

/-- Reads a string, given the text from its opening quote on, the characters read so far in reverse,
and the text that is left; the bound is the length of that text. -/
def readStringAfter (opening : List Char) :
    Nat → List Char → List Char → Except ReadFailure (String × List Char)
  | 0, _, _ => expected "Unterminated string starting at" opening
  | _ + 1, _, [] => expected "Unterminated string starting at" opening
  | bound + 1, found, c :: rest =>
      if c = '"' then .ok (String.ofList found.reverse, rest)
      else if c = '\\' then
        match rest with
        | [] => expected "Unterminated string starting at" opening
        | 'u' :: digits => do
            let (code, left) ← readCode digits
            readStringAfter opening bound (code :: found) left
        | escape :: left =>
            match shortEscape? escape with
            | some plain => readStringAfter opening bound (plain :: found) left
            | none => expected "Invalid \\escape" (c :: rest)
      else if c.toNat < 32 then expected "Invalid control character at" (c :: rest)
      else readStringAfter opening bound (c :: found) rest

def readString (text : List Char) : Except ReadFailure (String × List Char) :=
  readStringAfter ('"' :: text) (text.length + 1) [] text

def isPlainDigit (c : Char) : Bool := '0' ≤ c && c ≤ '9'

/-- The digits of the integer part of a number, of which one that starts with zero has no other. -/
def wholeDigits : List Char → List Char
  | '0' :: _ => ['0']
  | text => text.takeWhile isPlainDigit

/-- The point and the digits after it, when there are digits. -/
def fractionDigits : List Char → List Char
  | '.' :: rest =>
      let digits := rest.takeWhile isPlainDigit
      if digits.isEmpty then [] else '.' :: digits
  | _ => []

def exponentDigits : List Char → List Char
  | [] => []
  | mark :: rest =>
      if mark = 'e' ∨ mark = 'E' then
        let (sign, unsigned) := Decimal.takeSign rest
        let digits := unsigned.takeWhile isPlainDigit
        if digits.isEmpty then [] else mark :: (sign.toList ++ digits)
      else []

def readNumber (text : List Char) : Except ReadFailure (Json × List Char) :=
  let (sign, unsigned) :=
    match text with
    | '-' :: rest => (['-'], rest)
    | _ => ([], text)
  let whole := wholeDigits unsigned
  if whole.isEmpty then expected "Expecting value" text
  else
    let afterWhole := unsigned.drop whole.length
    let fraction := fractionDigits afterWhole
    let afterFraction := afterWhole.drop fraction.length
    let exponent := exponentDigits afterFraction
    match Decimal.Numeral.read? (sign ++ whole ++ fraction ++ exponent) with
    | none => expected "Expecting value" text
    | some numeral =>
        match Number.ofNumeral numeral with
        | .ok value => .ok (.number value, afterFraction.drop exponent.length)
        | .error fault => .error (.fault fault)

def wordValues : List (String × Json) :=
  [("null", .null), ("true", .bool true), ("false", .bool false),
    ("NaN", .number (.float Binary64.notANumber)),
    ("Infinity", .number (.float (Binary64.infinity false))),
    ("-Infinity", .number (.float (Binary64.infinity true)))]

def readWord? (text : List Char) : Option (Json × List Char) :=
  wordValues.findSome? fun (word, value) =>
    if word.toList.isPrefixOf text then some (value, text.drop word.length) else none

/-- Reads the items of an array, each with `inner`; the bound is the length of the text. -/
def readItems (inner : List Char → Except ReadFailure (Json × List Char)) :
    Nat → List Json → List Char → Except ReadFailure (Json × List Char)
  | 0, _, text => expected "Expecting value" text
  | bound + 1, found, text => do
      let (item, rest) ← inner text
      let rest := skipBlanks rest
      match rest with
      | ']' :: left => return (.array (item :: found).reverse, left)
      | ',' :: left => readItems inner bound (item :: found) (skipBlanks left)
      | _ => expected "Expecting ',' delimiter" rest

/-- Reads the entries of an object, each value with `inner`; the bound is the length of the text. -/
def readEntries (inner : List Char → Except ReadFailure (Json × List Char)) :
    Nat → List (String × Json) → List Char → Except ReadFailure (Json × List Char)
  | 0, _, text => expected "Expecting property name enclosed in double quotes" text
  | bound + 1, found, text =>
      match text with
      | '"' :: name => do
          let (key, rest) ← readString name
          let rest := skipBlanks rest
          match rest with
          | ':' :: left => do
              let (value, rest) ← inner (skipBlanks left)
              let rest := skipBlanks rest
              match rest with
              | '}' :: left => return (ofEntries ((key, value) :: found).reverse, left)
              | ',' :: left => readEntries inner bound ((key, value) :: found) (skipBlanks left)
              | _ => expected "Expecting ',' delimiter" rest
          | _ => expected "Expecting ':' delimiter" rest
      | _ => expected "Expecting property name enclosed in double quotes" text

/-- Reads a value whose containers are nested no deeper than a bound. -/
def readValue : Nat → List Char → Except ReadFailure (Json × List Char)
  | 0, _ => .error .tooDeep
  | depth + 1, text =>
      match text with
      | '"' :: rest => do
          let (found, left) ← readString rest
          return (.string found, left)
      | '{' :: rest =>
          match skipBlanks rest with
          | '}' :: left => .ok (.object [], left)
          | inside => readEntries (readValue depth) (inside.length + 1) [] inside
      | '[' :: rest =>
          match skipBlanks rest with
          | ']' :: left => .ok (.array [], left)
          | inside => readItems (readValue depth) (inside.length + 1) [] inside
      | _ =>
          match readWord? text with
          | some found => .ok found
          | none => readNumber text

def depthLimit : Nat := 900

def readText (text : List Char) : Except ReadFailure Json :=
  if text.head? = some '\uFEFF' then expected "Unexpected UTF-8 BOM (decode using utf-8-sig)" text
  else do
    let (value, rest) ← readValue depthLimit (skipBlanks text)
    let rest := skipBlanks rest
    if rest.isEmpty then return value else expected "Extra data" rest

/-- A place in a text, counted in three ways. -/
structure Position where
  offset : Nat
  line : Nat
  column : Nat

def positionOf (text rest : List Char) : Position :=
  let before := text.take (text.length - rest.length)
  let sinceNewline := before.reverse.takeWhile (· ≠ '\n')
  ⟨before.length, before.count '\n' + 1, sinceNewline.length + 1⟩

end ShellLisp.Json
