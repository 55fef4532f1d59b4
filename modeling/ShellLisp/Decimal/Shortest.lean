import ShellLisp.Binary64

/-!
# Shortest decimals

The fewest decimal digits that read back as a given binary number, and of those the nearest to it. A
positive number `mantissa * 2 ^ exponent` is the rounding of every real in an interval around it;
for one digit, two digits and so on, the two decimals beside the number are tried, and the first
that lies in the interval is taken.
-/

namespace ShellLisp.Decimal

/-- A positive decimal: `0.d₁d₂… * 10 ^ point` for the decimal digits `d₁d₂…` of `digits`. -/
structure Scientific where
  digits : List Char
  point : Int
  deriving DecidableEq, Repr

def digitsOf (n : Nat) : List Char := Nat.toDigits 10 n

/-- The digits of a positive number of units, in units of `10 ^ unit`, without zeros at the end. -/
def Scientific.ofUnits (n : Nat) (unit : Int) : Scientific :=
  let digits := digitsOf n
  ⟨(digits.reverse.dropWhile (· = '0')).reverse, digits.length + unit⟩

/-- Compares `n * 10 ^ unit` with `m * 2 ^ exponent`. -/
def compareScaled (n : Nat) (unit : Int) (m : Nat) (exponent : Int) : Ordering :=
  compare (n * tenTo unit.toNat * twoTo (-exponent).toNat)
    (m * twoTo exponent.toNat * tenTo (-unit).toNat)

/-- The reals that round to `mantissa * 2 ^ exponent`, in quarters of the last place. -/
structure Rounding where
  low : Nat
  value : Nat
  high : Nat
  exponent : Int
  closed : Bool

/-- The interval of a binary number; below a power of two it is half as wide. -/
def Rounding.ofBinary (mantissa : Nat) (exponent : Int) : Rounding where
  low :=
    if mantissa = twoTo Binary64.fractionBits ∧ Binary64.leastExponent < exponent then
      4 * mantissa - 1
    else 4 * mantissa - 2
  value := 4 * mantissa
  high := 4 * mantissa + 2
  exponent := exponent - 2
  closed := mantissa % 2 == 0

def Rounding.admits (interval : Rounding) (n : Nat) (unit : Int) : Bool :=
  match compareScaled n unit interval.low interval.exponent,
      compareScaled n unit interval.high interval.exponent with
  | .lt, _ => false
  | _, .gt => false
  | .eq, _ => interval.closed
  | _, .eq => interval.closed
  | .gt, .lt => true

/-- The place of the first digit: the `k` with `10 ^ (k - 1) ≤ n * 2 ^ exponent < 10 ^ k`. -/
def decimalPoint (n : Nat) (exponent : Int) : Int :=
  let numerator := n * twoTo exponent.toNat
  let denominator := twoTo (-exponent).toNat
  if denominator ≤ numerator then (digitsOf (numerator / denominator)).length
  else
    let inverse := (denominator - 1) / numerator
    1 - (digitsOf inverse).length

/-- The whole number of units of `10 ^ unit` below `n * 2 ^ exponent`. -/
def unitsBelow (n : Nat) (exponent unit : Int) : Nat :=
  (n * twoTo exponent.toNat * tenTo (-unit).toNat) / (twoTo (-exponent).toNat * tenTo unit.toNat)

/-- Of two neighbouring counts of units the one nearer to the number, the even one of a tie. -/
def Rounding.nearer (interval : Rounding) (below : Nat) (unit : Int) : Nat :=
  match compareScaled (2 * below + 1) unit (2 * interval.value) interval.exponent with
  | .gt => below
  | .lt => below + 1
  | .eq => if below % 2 = 0 then below else below + 1

/-- The decimal with the given number of digits that rounds to the number, if there is one. -/
def Rounding.withDigits? (interval : Rounding) (point : Int) (count : Nat) : Option Scientific :=
  let unit := point - count
  let below := unitsBelow interval.value interval.exponent unit
  let low := interval.admits below unit
  let high := interval.admits (below + 1) unit
  if low && high then some (.ofUnits (interval.nearer below unit) unit)
  else if low then some (.ofUnits below unit)
  else if high then some (.ofUnits (below + 1) unit)
  else none

/-- The shortest decimal that reads back as the positive number `mantissa * 2 ^ exponent`. -/
def shortest (mantissa : Nat) (exponent : Int) : Scientific :=
  let interval := Rounding.ofBinary mantissa exponent
  let point := decimalPoint interval.value interval.exponent
  let tries := (List.range 17).map fun shorter => interval.withDigits? point (shorter + 1)
  (tries.findSome? id).getD
    (.ofUnits (unitsBelow interval.value interval.exponent (point - 17)) (point - 17))

end ShellLisp.Decimal
