import ShellLisp.Library.Arguments
import ShellLisp.Number.Arithmetic
import ShellLisp.Store.Order
import ShellLisp.Store.Template

/-!
# Operators on values

What the arithmetic and comparison operators do with two values. Numbers are computed with; texts,
arrays and tuples can be joined and repeated, and a text on the left of a remainder is a template.
-/

namespace ShellLisp.Operator

def numeric (result : Except Fault Number) : Eval Value := do
  return .number (← Eval.lift result)

def unsupported (operator : String) (left right : Value) : Eval Value :=
  Eval.fault (.unsupportedOperands operator left.typeName right.typeName)

def onNumbers (operator : String) (operation : Number → Number → Except Fault Number)
    (left right : Value) : Eval Value :=
  match left.numeric?, right.numeric? with
  | some n, some m => numeric (operation n m)
  | _, _ => unsupported operator left right

/-- The sum of numbers, or sequences of one type joined. -/
def add (left right : Value) : Eval Value :=
  match left, right with
  | .string a, .string b => return .string (a ++ b)
  | .array a, .array b => do
      let items ← Eval.ask fun store => store.array a ++ store.array b
      Eval.newArray items
  | .tuple a, .tuple b => return .tuple (a ++ b)
  | .string _, other | .array _, other | .tuple _, other =>
      Eval.fault (.cannotConcatenate left.typeName other.typeName)
  | _, _ => onNumbers "+" Number.add left right

def subtract : Value → Value → Eval Value := onNumbers "-" Number.subtract

/-- The greatest length of a repeated sequence that fits in memory. -/
def repeatLimit : Nat := twoTo 33

/-- The greatest length that can be told. -/
def lengthLimit : Nat := twoTo 63

/-- How often a sequence of a length is repeated. -/
def repetitions (length : Nat) (isText : Bool) (count : Value) : Eval Nat :=
  match count.numeric? with
  | some (.int n) =>
      if (lengthLimit : Int) ≤ n ∨ n < -(lengthLimit : Int) then Eval.fault .notALength
      else if length = 0 then return 0
      else if isText && lengthLimit ≤ length * n.toNat then Eval.fault .repeatedTooOften
      else if repeatLimit < length * n.toNat then Eval.fault .outOfMemory
      else return n.toNat
  | _ => Eval.fault (.cannotRepeat count.typeName)

def repeated {α : Type} (items : List α) (count : Nat) : List α :=
  (List.replicate count items).flatten

def multiply (left right : Value) : Eval Value :=
  match left.numeric?, right.numeric? with
  | some n, some m => numeric (n.multiply m)
  | _, _ =>
      match repeatable? left, repeatable? right with
      | some sequence, _ => sequence right
      | none, some sequence => sequence left
      | none, none => unsupported "*" left right
where
  repeatable? : Value → Option (Value → Eval Value)
    | .string text => some fun count => do
        let times ← repetitions text.length true count
        return .ofChars (repeated text.toList times)
    | .array ref => some fun count => do
        let items ← Eval.ask fun store => store.array ref
        let times ← repetitions items.size false count
        Eval.newArray (repeated items.toList times).toArray
    | .tuple items => some fun count => do
        let times ← repetitions items.length false count
        return .tuple (repeated items times)
    | _ => none

def divide : Value → Value → Eval Value := onNumbers "/" Number.divide

def modulo (left right : Value) : Eval Value :=
  match left with
  | .string template => do
      return .string (← Eval.read fun store => Template.fill store template right)
  | _ => onNumbers "%" Number.modulo left right

def power (left right : Value) : Eval Value :=
  match left.numeric?, right.numeric? with
  | some n, some m => do
      match ← Eval.lift (n.power m) with
      | some result => return .number result
      | none => return .complex
  | _, _ => unsupported "** or pow()" left right

/-- An operator put between all arguments, from the left; there must be one argument. -/
def foldArguments (callee : String) (operation : Value → Value → Eval Value) (place : Location) :
    List Value → Eval Value
  | [] => Eval.problem place (.takesAtLeast callee 1 0)
  | first :: rest => rest.foldlM operation first

/-- Whether a comparison holds between each two neighbours, tried from the left. -/
def allOrdered (comparison : Comparison) : List Value → Eval Bool
  | first :: second :: rest => do
      if ← Eval.read fun store => store.holds comparison first second then
        allOrdered comparison (second :: rest)
      else return false
  | _ => return true

/-- A comparison put between all arguments; there must be two. -/
def compareArguments (comparison : Comparison) (place : Location) (arguments : List Value) :
    Eval Value := do
  Arguments.atLeast comparison.symbol 2 place arguments
  return .bool (← allOrdered comparison arguments)

end ShellLisp.Operator
