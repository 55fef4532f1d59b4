import ShellLisp.Problem
import ShellLisp.Store

/-!
# Equality of values

Two values are equal when they are the same number or text, or arrays or maps of equal elements.
Functions, lazy sequences and host objects are equal only to themselves. Elements that are the same
object count as equal without being looked at, so that a container may hold itself. True and false
count as one and zero inside containers, but not by themselves.
-/

namespace ShellLisp.Store

def allPairs (test : Value → Value → Except Failure Bool) :
    List Value → List Value → Except Failure Bool
  | a :: as, b :: bs => do
      if ← test a b then allPairs test as bs else return false
  | _, _ => .ok true

def equalRows (test : Value → Value → Except Failure Bool) (as bs : List Value) :
    Except Failure Bool :=
  if as.length = bs.length then allPairs test as bs else .ok false

/-- Whether every entry has an equal value under the same key in a map. -/
def allEntries (test : Value → Value → Except Failure Bool) (other : Entries) :
    List (Value × Value) → Except Failure Bool
  | [] => .ok true
  | (key, value) :: rest =>
      match other.get? key with
      | none => .ok false
      | some found => do
          if ← test found value then allEntries test other rest else return false

def equalWithin (store : Store) : Nat → Value → Value → Except Failure Bool
  | 0, _, _ => .error .tooDeep
  | depth + 1, left, right =>
      let element (a b : Value) : Except Failure Bool :=
        if a.sameKey b then .ok true else equalWithin store depth a b
      match left, right with
      | .tuple as, .tuple bs => equalRows element as bs
      | .array a, .array b => equalRows element (store.array a).toList (store.array b).toList
      | .map a, .map b =>
          let entries := store.map a
          let others := store.map b
          if entries.size = others.size then allEntries element others entries.toList else .ok false
      | .number a, .number b => .ok (a.equal b)
      | a, b => .ok (a.sameKey b)

def equalElements (store : Store) (left right : Value) : Except Failure Bool :=
  if left.sameKey right then .ok true else store.equalWithin depthLimits.values left right

def isBool : Value → Bool
  | .bool _ => true
  | _ => false

/-- Whether two values are equal; true and false equal no number. -/
def equal (store : Store) (left right : Value) : Except Failure Bool :=
  if isBool left != isBool right then .ok false
  else store.equalWithin depthLimits.values left right

end ShellLisp.Store
