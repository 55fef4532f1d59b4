import ShellLisp.Binary64
import ShellLisp.Text.Digit

/-!
# Numerals

The spelling of a number in source text: an optional sign, digits with an optional point, and an
optional exponent, the digits being of any script. A numeral without point and exponent is an
integer. The main statement is that reading a numeral keeps every character: the spelling of the
numeral read is the text.
-/

namespace ShellLisp.Decimal
open Text

def takeSign : List Char → Option Char × List Char
  | '-' :: rest => (some '-', rest)
  | '+' :: rest => (some '+', rest)
  | text => (none, text)

structure Exponent where
  mark : Char
  sign : Option Char
  digits : List Char
  deriving DecidableEq, Repr

structure Numeral where
  sign : Option Char
  whole : List Char
  fraction : Option (List Char)
  exponent : Option Exponent
  deriving DecidableEq, Repr

/-- The exponent that a text is, if it is one and nothing else. -/
def Exponent.read? : List Char → Option Exponent
  | [] => none
  | mark :: rest =>
      if mark = 'e' ∨ mark = 'E' then
        let (sign, digits) := takeSign rest
        if digits ≠ [] ∧ digits.all isDecimalDigit then some ⟨mark, sign, digits⟩ else none
      else none

/-- The end of a numeral: nothing, or an exponent. -/
def readExponent? : List Char → Option (Option Exponent)
  | [] => some none
  | text => (Exponent.read? text).map some

/-- The numeral that a text is, if it is one and nothing else. -/
def Numeral.read? (text : List Char) : Option Numeral :=
  let (sign, unsigned) := takeSign text
  let whole := unsigned.takeWhile isDecimalDigit
  match unsigned.dropWhile isDecimalDigit with
  | '.' :: rest =>
      let fraction := rest.takeWhile isDecimalDigit
      if whole = [] ∧ fraction = [] then none
      else (readExponent? (rest.dropWhile isDecimalDigit)).map (⟨sign, whole, some fraction, ·⟩)
  | rest => if whole = [] then none else (readExponent? rest).map (⟨sign, whole, none, ·⟩)

def Exponent.spelling (exponent : Exponent) : List Char :=
  exponent.mark :: exponent.sign.toList ++ exponent.digits

def Numeral.spelling (numeral : Numeral) : List Char :=
  numeral.sign.toList ++ numeral.whole ++
    ((numeral.fraction.map ('.' :: ·)).getD [] ++ (numeral.exponent.map (·.spelling)).getD [])

def Numeral.isInteger (numeral : Numeral) : Bool :=
  numeral.fraction.isNone && numeral.exponent.isNone

def Numeral.isNegative (numeral : Numeral) : Bool := numeral.sign == some '-'

def Numeral.integer (numeral : Numeral) : Int :=
  Binary64.signed numeral.isNegative (digitsValue numeral.whole)

def Exponent.value (exponent : Exponent) : Int :=
  Binary64.signed (exponent.sign == some '-') (digitsValue exponent.digits)

/-- The floating-point number nearest to `±digits * 10 ^ exponent`; too large a number is
infinite. -/
def nearestDecimal (negative : Bool) (digits : Nat) (exponent : Int) : Float :=
  let size := (Nat.toDigits 10 digits).length + exponent
  if digits = 0 ∨ size < -400 then Binary64.zero negative
  else if 400 < size then Binary64.infinity negative
  else
    (Binary64.nearest? negative (digits * tenTo exponent.toNat) (tenTo (-exponent).toNat)).getD
      (Binary64.infinity negative)

def Numeral.float (numeral : Numeral) : Float :=
  let fraction := numeral.fraction.getD []
  let exponent := (numeral.exponent.map (·.value)).getD 0
  nearestDecimal numeral.isNegative (digitsValue (numeral.whole ++ fraction))
    (exponent - fraction.length)

theorem takeSign_append (text : List Char) :
    (takeSign text).1.toList ++ (takeSign text).2 = text := by
  unfold takeSign
  split <;> simp

theorem Exponent.spelling_of_read? {text : List Char} {exponent : Exponent}
    (read : Exponent.read? text = some exponent) : exponent.spelling = text := by
  cases text with
  | nil => simp [Exponent.read?] at read
  | cons mark rest =>
      simp only [Exponent.read?] at read
      split at read
      · split at read
        · cases read
          simpa [Exponent.spelling] using takeSign_append rest
        · contradiction
      · contradiction

theorem readExponent?_spelling {text : List Char} {exponent : Option Exponent}
    (read : readExponent? text = some exponent) :
    (exponent.map (·.spelling)).getD [] = text := by
  cases text with
  | nil => cases read; rfl
  | cons c rest =>
      obtain ⟨found, reading, rfl⟩ := Option.map_eq_some_iff.mp read
      simpa using Exponent.spelling_of_read? reading

theorem Numeral.spelling_of_read? {text : List Char} {numeral : Numeral}
    (read : Numeral.read? text = some numeral) : numeral.spelling = text := by
  have signs := takeSign_append text
  simp only [Numeral.read?] at read
  generalize takeSign text = signed at signs read
  obtain ⟨sign, unsigned⟩ := signed
  have parts := List.takeWhile_append_dropWhile (p := isDecimalDigit) (l := unsigned)
  simp only at signs read
  split at read
  · rename_i rest dropped
    split at read
    · contradiction
    · obtain ⟨exponent, reading, rfl⟩ := Option.map_eq_some_iff.mp read
      have tail := readExponent?_spelling reading
      have digits := List.takeWhile_append_dropWhile (p := isDecimalDigit) (l := rest)
      rw [dropped] at parts
      simp only [Numeral.spelling, tail, Option.map_some, Option.getD_some, List.cons_append]
      rw [digits, List.append_assoc, parts, signs]
  · split at read
    · contradiction
    · obtain ⟨exponent, reading, rfl⟩ := Option.map_eq_some_iff.mp read
      have tail := readExponent?_spelling reading
      simp only [Numeral.spelling, tail, Option.map_none, Option.getD_none, List.nil_append]
      rw [List.append_assoc, parts, signs]

end ShellLisp.Decimal
