import ShellLisp.Power

/-!
# Binary floating-point numbers, exactly

A 64-bit floating-point number seen as what it stands for: an integer times a power of two, an
infinity, or no number. Comparison, truncation and remainder are computed on that view, and a
quotient of two integers is brought back to the nearest 64-bit number, a half going to the even
neighbour.
-/

namespace ShellLisp

/-- What a floating-point number stands for; a finite one is `±mantissa * 2 ^ exponent`. -/
inductive Binary64
  | finite (negative : Bool) (mantissa : Nat) (exponent : Int)
  | infinite (negative : Bool)
  | nan
  deriving DecidableEq, Repr

namespace Binary64

def fractionBits : Nat := 52

def leastExponent : Int := -1074

def ofPattern (pattern : Nat) : Binary64 :=
  let negative := pattern / twoTo 63 % 2 == 1
  let field : Nat := pattern / twoTo 52 % 2048
  let fraction := pattern % twoTo 52
  if field = 2047 then if fraction = 0 then .infinite negative else .nan
  else if field = 0 then .finite negative fraction leastExponent
  else .finite negative (twoTo 52 + fraction) (Int.ofNat field - 1075)

def ofFloat (x : Float) : Binary64 := ofPattern x.toBits.toNat

def isZero : Binary64 → Bool
  | .finite _ 0 _ => true
  | _ => false

def isNegative : Binary64 → Bool
  | .finite negative _ _ => negative
  | .infinite negative => negative
  | .nan => false

def signed (negative : Bool) (n : Nat) : Int := if negative then -(n : Int) else n

/-- Two integers that are to each other as `n * 2 ^ exponent` is to `m`. -/
def balance (n : Int) (exponent : Int) (m : Int) : Int × Int :=
  if 0 ≤ exponent then (n * twoTo exponent.toNat, m) else (n, m * twoTo (-exponent).toNat)

def orderInt (n m : Int) : Ordering := if n < m then .lt else if m < n then .gt else .eq

def order? : Binary64 → Binary64 → Option Ordering
  | .nan, _ => none
  | _, .nan => none
  | .infinite true, .infinite true => some .eq
  | .infinite false, .infinite false => some .eq
  | .infinite negative, _ => some (if negative then .lt else .gt)
  | _, .infinite negative => some (if negative then .gt else .lt)
  | .finite sn n en, .finite sm m em =>
      let (a, b) := balance (signed sn n) (en - em) (signed sm m)
      some (orderInt a b)

theorem order?_self {x : Binary64} (known : x ≠ .nan) : x.order? x = some .eq := by
  cases x with
  | nan => exact absurd rfl known
  | infinite negative => cases negative <;> rfl
  | finite negative mantissa exponent => simp [order?, balance, orderInt, twoTo]

def ofInt (n : Int) : Binary64 := .finite (n < 0) n.natAbs 0

def truncate (negative : Bool) (mantissa : Nat) (exponent : Int) : Int :=
  if 0 ≤ exponent then signed negative (mantissa * twoTo exponent.toNat)
  else signed negative (mantissa / twoTo (-exponent).toNat)

/-- The quotient of two numbers rounded to the nearest integer, a half to the even one. -/
def roundQuotient (numerator denominator : Nat) : Nat :=
  let quotient := numerator / denominator
  let rest := numerator % denominator
  if 2 * rest < denominator then quotient
  else if denominator < 2 * rest then quotient + 1
  else quotient + quotient % 2

def shifted (numerator denominator : Nat) (exponent : Int) : Nat × Nat :=
  if 0 ≤ exponent then (numerator, denominator * twoTo exponent.toNat)
  else (numerator * twoTo (-exponent).toNat, denominator)

/-- The exponent at which a quotient has as many bits as a fraction holds, or the least one. -/
def quotientExponent (numerator denominator : Nat) : Int :=
  let guess : Int := (numerator.log2 : Int) - denominator.log2
  let (scaled, unit) := shifted numerator denominator guess
  max leastExponent (if scaled < unit then guess - 53 else guess - 52)

/-- The bit pattern of the positive number nearest to a quotient; too large a pattern is
overflow. -/
def quotientPattern (numerator denominator : Nat) : Nat :=
  if numerator = 0 then 0
  else
    let exponent := quotientExponent numerator denominator
    let (scaled, unit) := shifted numerator denominator exponent
    (exponent - leastExponent).toNat * twoTo 52 + roundQuotient scaled unit

/-- The pattern of positive infinity, the least that is no finite number's. -/
def infinityPattern : Nat := 2047 * twoTo 52

def pack (negative : Bool) (pattern : Nat) : Float :=
  Float.ofBits (UInt64.ofNat (if negative then twoTo 63 + pattern else pattern))

/-- The floating-point number nearest to a quotient, unless it is out of range. -/
def nearest? (negative : Bool) (numerator denominator : Nat) : Option Float :=
  let pattern := quotientPattern numerator denominator
  if pattern < infinityPattern then some (pack negative pattern) else none

/-- The floating-point number nearest to an integer, unless it is out of range. -/
def floatOfInt? (n : Int) : Option Float := nearest? (n < 0) n.natAbs 1

def infinity (negative : Bool) : Float := pack negative infinityPattern

def zero (negative : Bool) : Float := pack negative 0

def notANumber : Float := pack false (infinityPattern + twoTo 51)

/-- The exact remainder of two finite numbers with the sign of the first; the second is not zero. -/
def remainder (negative : Bool) (n : Nat) (en : Int) (m : Nat) (em : Int) : Float :=
  let least := min en em
  let rest := (n * twoTo (en - least).toNat) % (m * twoTo (em - least).toNat)
  let (numerator, denominator) :=
    if 0 ≤ least then (rest * twoTo least.toNat, 1) else (rest, twoTo (-least).toNat)
  (nearest? negative numerator denominator).getD (infinity negative)

end Binary64

end ShellLisp
