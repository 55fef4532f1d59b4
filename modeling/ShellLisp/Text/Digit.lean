import ShellLisp.Text.Blank

/-!
# Decimal digits

Every script of Unicode 14 writes its decimal digits as ten consecutive code points. A character is
a `decimalDigit?` when it lies in such a block, and its value is its place in the block. The wider
class `isDigit` also has superscripts, subscripts and circled digits, which no numeral is made of.
-/

namespace ShellLisp.Text

def zeroDigits : List Nat := [
  48, 1632, 1776, 1984, 2406, 2534, 2662, 2790, 2918, 3046, 3174, 3302, 3430, 3558, 3664, 3792,
  3872, 4160, 4240, 6112, 6160, 6470, 6608, 6784, 6800, 6992, 7088, 7232, 7248, 42528, 43216,
  43264, 43472, 43504, 43600, 44016, 65296, 66720, 68912, 69734, 69872, 69942, 70096, 70384,
  70736, 70864, 71248, 71360, 71472, 71904, 72016, 72784, 73040, 73120, 92768, 92864, 93008,
  120782, 120792, 120802, 120812, 120822, 123200, 123632, 125264, 130032]

def decimalDigit? (c : Char) : Option Nat :=
  (zeroDigits.find? fun first => first ≤ c.toNat && c.toNat < first + 10).map (c.toNat - ·)

def isDecimalDigit (c : Char) : Bool := (decimalDigit? c).isSome

/-- Digits that are not decimal digits: raised, lowered, circled and the like. -/
def digitFormSpans : List (Nat × Nat) := [
  (178, 179), (185, 185), (4969, 4977), (6618, 6618), (8304, 8304), (8308, 8313), (8320, 8329),
  (9312, 9320), (9332, 9340), (9352, 9360), (9450, 9450), (9461, 9469), (9471, 9471),
  (10102, 10110), (10112, 10120), (10122, 10130), (68160, 68163), (69216, 69224), (69714, 69722),
  (127232, 127242)]

def isDigit (c : Char) : Bool := isDecimalDigit c || inSpans digitFormSpans c

theorem isDigit_of_isDecimalDigit {c : Char} (decimal : isDecimalDigit c = true) :
    isDigit c = true := by
  simp [isDigit, decimal]

def digitsValue (digits : List Char) : Nat :=
  digits.foldl (fun value c => 10 * value + (decimalDigit? c).getD 0) 0

end ShellLisp.Text
