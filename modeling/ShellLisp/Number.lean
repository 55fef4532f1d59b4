import ShellLisp.Decimal.Layout
import ShellLisp.Decimal.Numeral
import ShellLisp.Fault

/-!
# Numbers

The numbers of the language: integers without bound and floating-point numbers. They are compared by
what they stand for, so that an integer and a floating-point number are equal exactly when they are
the same number. The main statement is that equal integers are the same.
-/

namespace ShellLisp

inductive Number
  | int (n : Int)
  | float (x : Float)
  deriving Inhabited

namespace Number

def view : Number → Binary64
  | .int n => .ofInt n
  | .float x => .ofFloat x

/-- The order of two numbers; none when one of them is no number. -/
def order? : Number → Number → Option Ordering
  | .int n, .int m => some (Binary64.orderInt n m)
  | a, b => a.view.order? b.view

def equal (a b : Number) : Bool := a.order? b == some .eq

/-- Whether two numbers count as one element or key: the same number, or both no number. -/
def same (a b : Number) : Bool := a.equal b || (a.view == .nan && b.view == .nan)

def less (a b : Number) : Bool := a.order? b == some .lt

def lessOrEqual (a b : Number) : Bool := a.less b || a.equal b

def isZero (a : Number) : Bool := a.view.isZero

def isPositive (a : Number) : Bool := (Number.int 0).less a

/-- The integer with the given value, written, unless it has too many digits. -/
def integerText (n : Int) : Except Fault String :=
  let digits := Decimal.digitsOf n.natAbs
  if Fault.digitLimit < digits.length then .error .tooManyDigits
  else .ok ((if n < 0 then "-" else "") ++ String.ofList digits)

def text : Number → Except Fault String
  | .int n => integerText n
  | .float x => .ok (Decimal.floatText x)

/-- The number that a numeral writes, unless it is an integer of too many digits. -/
def ofNumeral (numeral : Decimal.Numeral) : Except Fault Number :=
  if numeral.isInteger then
    if Fault.digitLimit < numeral.whole.length then
      .error (.tooManyDigitsRead numeral.whole.length)
    else .ok (.int numeral.integer)
  else .ok (.float numeral.float)

theorem ofNumeral_fails {numeral : Decimal.Numeral} {fault : Fault}
    (failed : ofNumeral numeral = .error fault) :
    numeral.isInteger = true ∧ Fault.digitLimit < numeral.whole.length ∧
      fault = .tooManyDigitsRead numeral.whole.length := by
  unfold ofNumeral at failed
  split at failed
  · rename_i integer
    split at failed
    · rename_i long
      cases failed
      exact ⟨integer, long, rfl⟩
    · cases failed
  · cases failed

def toFloat : Number → Except Fault Float
  | .float x => .ok x
  | .int n =>
      match Binary64.floatOfInt? n with
      | some x => .ok x
      | none => .error .integerTooLarge

def truncate : Number → Except Fault Int
  | .int n => .ok n
  | .float x =>
      match Binary64.ofFloat x with
      | .finite negative mantissa exponent => .ok (Binary64.truncate negative mantissa exponent)
      | .infinite _ => .error .infinityToInteger
      | .nan => .error .notANumberToInteger

end Number

theorem equal_int_iff {n m : Int} : (Number.int n).equal (.int m) = true ↔ n = m := by
  by_cases same : n = m
  · simp [Number.equal, Number.order?, Binary64.orderInt, same]
  · simp only [Number.equal, Number.order?, Binary64.orderInt, same, iff_false]
    split
    · decide
    · split
      · decide
      · omega

end ShellLisp
