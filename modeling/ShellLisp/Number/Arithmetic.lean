import ShellLisp.Number

/-!
# Arithmetic

Sums, differences, products, quotients, remainders and powers of numbers. Integers stay integers but
for a quotient and a negative power; where one operand is a floating-point number the other becomes
one. A remainder has the sign of the divisor.
-/

namespace ShellLisp.Number

def combine (integers : Int → Int → Int) (floats : Float → Float → Float) :
    Number → Number → Except Fault Number
  | .int n, .int m => .ok (.int (integers n m))
  | a, b => do return .float (floats (← a.toFloat) (← b.toFloat))

def add : Number → Number → Except Fault Number := combine (· + ·) (· + ·)

def subtract : Number → Number → Except Fault Number := combine (· - ·) (· - ·)

def multiply : Number → Number → Except Fault Number := combine (· * ·) (· * ·)

def negate : Number → Number
  | .int n => .int (-n)
  | .float x => .float (-x)

def divideIntegers (n m : Int) : Except Fault Number :=
  if m = 0 then .error .divisionByZero
  else
    match Binary64.nearest? ((n < 0) != (m < 0)) n.natAbs m.natAbs with
    | some x => .ok (.float x)
    | none => .error .quotientTooLarge

/-- The quotient of two numbers; never an integer. -/
def divide : Number → Number → Except Fault Number
  | .int n, .int m => divideIntegers n m
  | a, b => do
      let x ← a.toFloat
      let y ← b.toFloat
      if (Binary64.ofFloat y).isZero then throw .floatDivisionByZero
      return .float (x / y)

/-- The remainder with the sign of the first number, for a divisor that is not zero. -/
def truncatedRemainder (x y : Float) : Float :=
  match Binary64.ofFloat x, Binary64.ofFloat y with
  | .finite negative n en, .finite _ m em => Binary64.remainder negative n en m em
  | .finite .., .infinite _ => x
  | _, _ => Binary64.notANumber

def floatModulo (x y : Float) : Float :=
  let rest := truncatedRemainder x y
  let view := Binary64.ofFloat rest
  let divisor := Binary64.ofFloat y
  if view == .nan then rest
  else if view.isZero then Binary64.zero divisor.isNegative
  else if view.isNegative != divisor.isNegative then rest + y
  else rest

def modulo : Number → Number → Except Fault Number
  | .int n, .int m => if m = 0 then .error .moduloByZero else .ok (.int (n.fmod m))
  | a, b => do
      let x ← a.toFloat
      let y ← b.toFloat
      if (Binary64.ofFloat y).isZero then throw .floatModulo
      return .float (floatModulo x y)

/-- The greatest exponent for which a power of an integer is written out. -/
def exponentLimit : Nat := 1000000000

def integerPower (n : Int) (exponent : Nat) : Except Fault Number :=
  if exponent ≤ exponentLimit then .ok (.int (Int.pow n exponent))
  else if n = 0 ∨ n = 1 then .ok (.int n)
  else if n = -1 then .ok (.int (if exponent % 2 = 0 then 1 else -1))
  else .error .outOfMemory

/-- Whether a finite number is an integer, and then whether it is odd. -/
def parity? : Binary64 → Option Bool
  | .finite _ mantissa exponent =>
      if 0 ≤ exponent then some (exponent == 0 && mantissa % 2 == 1)
      else
        let unit := twoTo (-exponent).toNat
        if mantissa % unit = 0 then some (mantissa / unit % 2 == 1) else none
  | _ => none

/-- A power of a positive finite number with a finite exponent, with a sign applied. -/
def positivePower (negative : Bool) (x y : Float) : Except Fault Float :=
  let power := Float.pow x y
  if power.isInf then .error .resultOutOfRange else .ok (if negative then -power else power)

/-- A power of floating-point numbers; none when it is not real. -/
def floatPower (x y : Float) : Except Fault (Option Float) :=
  let odd := parity? (.ofFloat y) == some true
  match Binary64.ofFloat x, Binary64.ofFloat y with
  | _, .finite _ 0 _ => .ok (some 1)
  | .nan, _ => .ok (some x)
  | base, .nan => .ok (some (if (base.order? (.ofInt 1)) == some .eq then 1 else y))
  | .finite .., .infinite negative | .infinite _, .infinite negative =>
      let size := (Binary64.ofFloat x.abs).order? (.ofInt 1)
      if size == some .eq then .ok (some 1)
      else if (size == some .gt) != negative then .ok (some (Binary64.infinity false))
      else .ok (some (Binary64.zero false))
  | .infinite negative, .finite sinks _ _ =>
      if sinks then .ok (some (Binary64.zero (negative && odd)))
      else .ok (some (Binary64.infinity (negative && odd)))
  | .finite negative 0 _, .finite sinks _ _ =>
      if sinks then .error .zeroToNegativePower else .ok (some (Binary64.zero (negative && odd)))
  | .finite true _ _, exponent =>
      if (parity? exponent).isNone then .ok none
      else (positivePower odd (-x) y).map some
  | .finite false _ _, _ => (positivePower false x y).map some

/-- A power of numbers; none when it is not real. -/
def power : Number → Number → Except Fault (Option Number)
  | .int n, .int (.ofNat m) => (integerPower n m).map some
  | a, b => do return (← floatPower (← a.toFloat) (← b.toFloat)).map .float

end ShellLisp.Number
