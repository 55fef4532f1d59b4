import ShellLisp.Decimal.Shortest

/-!
# Written numbers

How a floating-point number is spelled: which exponents are written positionally, how an exponent is
marked, and the words for infinity and for no number. `NumberLayout` holds these decisions, and
`valueLayout` is the spelling of values.
-/

namespace ShellLisp.Decimal

structure NumberLayout where
  /-- Numbers whose first digit stands at or below this place have an exponent. -/
  tooSmall : Int
  /-- Numbers whose first digit stands above this place have an exponent. -/
  tooLarge : Int
  exponentMark : Char
  exponentWidth : Nat
  infinity : String
  notANumber : String

/-- Values are positional from 0.0001 up to 10 to the 16th, and an exponent has two digits or
more. -/
def valueLayout : NumberLayout :=
  { tooSmall := -4, tooLarge := 16, exponentMark := 'e', exponentWidth := 2, infinity := "inf",
    notANumber := "nan" }

def padZeros (width : Nat) (digits : List Char) : List Char :=
  List.replicate (width - digits.length) '0' ++ digits

def NumberLayout.exponentText (layout : NumberLayout) (exponent : Int) : List Char :=
  layout.exponentMark :: (if exponent < 0 then '-' else '+') ::
    padZeros layout.exponentWidth (digitsOf exponent.natAbs)

/-- A positive decimal without an exponent; a whole number keeps one zero after the point. -/
def positional (decimal : Scientific) : List Char :=
  if decimal.point ≤ 0 then
    ['0', '.'] ++ List.replicate (-decimal.point).toNat '0' ++ decimal.digits
  else
    let whole := decimal.point.toNat
    if decimal.digits.length ≤ whole then
      decimal.digits ++ List.replicate (whole - decimal.digits.length) '0' ++ ['.', '0']
    else decimal.digits.take whole ++ '.' :: decimal.digits.drop whole

def NumberLayout.exponential (layout : NumberLayout) (decimal : Scientific) : List Char :=
  let digits :=
    match decimal.digits with
    | first :: second :: rest => first :: '.' :: second :: rest
    | short => short
  digits ++ layout.exponentText (decimal.point - 1)

def NumberLayout.positive (layout : NumberLayout) (decimal : Scientific) : List Char :=
  if layout.tooSmall < decimal.point ∧ decimal.point ≤ layout.tooLarge then positional decimal
  else layout.exponential decimal

def NumberLayout.render (layout : NumberLayout) : Binary64 → String
  | .nan => layout.notANumber
  | .infinite negative => (if negative then "-" else "") ++ layout.infinity
  | .finite negative mantissa exponent =>
      let sign := if negative then "-" else ""
      if mantissa = 0 then sign ++ "0.0"
      else sign ++ String.ofList (layout.positive (shortest mantissa exponent))

def floatText (x : Float) : String := valueLayout.render (.ofFloat x)

end ShellLisp.Decimal
