import ShellLisp.Decimal.Layout

/-!
# Rounded decimals

A floating-point number written with a given number of digits: with a fixed number of places, with
an exponent, or in whichever of the two forms suits its size. The number is rounded once, from its
exact value, and a half goes to the even neighbour.
-/

namespace ShellLisp.Decimal

/-- A number `mantissa * 2 ^ exponent` in units of `10 ^ unit`, rounded. -/
def unitsOf (mantissa : Nat) (exponent unit : Int) : Nat :=
  Binary64.roundQuotient (mantissa * twoTo exponent.toNat * tenTo (-unit).toNat)
    (twoTo (-exponent).toNat * tenTo unit.toNat)

/-- The point before digits, when there are digits or it is asked for. -/
def fractionText (keepPoint : Bool) (digits : List Char) : List Char :=
  if digits.isEmpty && !keepPoint then [] else '.' :: digits

def fixedText (keepPoint : Bool) (places mantissa : Nat) (exponent : Int) : List Char :=
  let digits := padZeros (places + 1) (digitsOf (unitsOf mantissa exponent (-places)))
  let whole := digits.length - places
  digits.take whole ++ fractionText keepPoint (digits.drop whole)

/-- A number rounded to `count` digits, and the exponent of the first of them. -/
def significant (count mantissa : Nat) (exponent : Int) : List Char × Int :=
  if mantissa = 0 then (List.replicate count '0', 0)
  else
    let place := decimalPoint mantissa exponent - 1
    let digits := digitsOf (unitsOf mantissa exponent (place - (count - 1 : Int)))
    if count < digits.length then (digits.take count, place + 1) else (digits, place)

def exponentialText (keepPoint : Bool) (digits : List Char) (exponent : Int) : List Char :=
  digits.take 1 ++ fractionText keepPoint (digits.drop 1) ++ valueLayout.exponentText exponent

def trimZeros (digits : List Char) : List Char := (digits.reverse.dropWhile (· = '0')).reverse

/-- A number with at most `count` digits, in the shorter form for its size. -/
def generalText (keepZeros : Bool) (count mantissa : Nat) (exponent : Int) : List Char :=
  let count := max count 1
  let (digits, place) := significant count mantissa exponent
  let shown (digits : List Char) : List Char := if keepZeros then digits else trimZeros digits
  if place < -4 ∨ (count : Int) ≤ place then
    exponentialText keepZeros (digits.take 1 ++ shown (digits.drop 1)) place
  else if place < 0 then
    '0' :: fractionText keepZeros (shown (List.replicate (-place - 1).toNat '0' ++ digits))
  else
    let whole := place.toNat + 1
    digits.take whole ++ fractionText keepZeros (shown (digits.drop whole))

inductive RoundedForm
  | fixed
  | exponential
  | general
  deriving DecidableEq, Repr

/-- A number in a form, with as many places or digits as given. -/
def roundedText (form : RoundedForm) (keepPoint : Bool) (precision : Nat) : Binary64 → List Char
  | .nan => "nan".toList
  | .infinite negative => (if negative then ['-'] else []) ++ "inf".toList
  | .finite negative mantissa exponent =>
      let digits :=
        match form with
        | .fixed => fixedText keepPoint precision mantissa exponent
        | .exponential =>
            let (digits, place) := significant (precision + 1) mantissa exponent
            exponentialText keepPoint digits place
        | .general => generalText keepPoint precision mantissa exponent
      (if negative then ['-'] else []) ++ digits

end ShellLisp.Decimal
