import ShellLisp.Store.Equality

/-!
# Order of values

Numbers are ordered by what they stand for, texts by the code points of their characters, and arrays
by their first different elements. Other values have no order.
-/

namespace ShellLisp

inductive Comparison
  | less
  | lessOrEqual
  | greater
  | greaterOrEqual
  deriving DecidableEq, Repr

namespace Comparison

def symbol : Comparison → String
  | .less => "<"
  | .lessOrEqual => "<="
  | .greater => ">"
  | .greaterOrEqual => ">="

def admits : Comparison → Ordering → Bool
  | .less, order => order == .lt
  | .lessOrEqual, order => order != .gt
  | .greater, order => order == .gt
  | .greaterOrEqual, order => order != .lt

end Comparison

namespace Store

def orderText (left right : String) : Ordering :=
  if left < right then .lt else if right < left then .gt else .eq

/-- The first elements of two rows that differ, if any do in the part that both have. -/
def firstDifference (store : Store) :
    List Value → List Value → Except Failure (Option (Value × Value))
  | a :: as, b :: bs => do
      if ← store.equalElements a b then firstDifference store as bs else return some (a, b)
  | _, _ => .ok none

def compareWithin (store : Store) (comparison : Comparison) :
    Nat → Value → Value → Except Failure Bool
  | 0, _, _ => .error .tooDeep
  | depth + 1, left, right =>
      let rows (as bs : List Value) : Except Failure Bool := do
        match ← store.firstDifference as bs with
        | some (a, b) => compareWithin store comparison depth a b
        | none => return comparison.admits (compare as.length bs.length)
      match left, right with
      | .string a, .string b => .ok (comparison.admits (orderText a b))
      | .tuple as, .tuple bs => rows as bs
      | .array a, .array b => rows (store.array a).toList (store.array b).toList
      | a, b =>
          match a.numeric?, b.numeric? with
          | some n, some m => .ok ((n.order? m).any comparison.admits)
          | _, _ => .error (.fault (.unordered comparison.symbol a.typeName b.typeName))

def holds (store : Store) (comparison : Comparison) (left right : Value) : Except Failure Bool :=
  store.compareWithin comparison depthLimits.values left right

end Store

end ShellLisp
