import ShellLisp.Session

/-!
# Sorting

A stable sort for a comparison that may run a program, and so may fail or have effects. Short rows
are sorted by looking for a run at the start and inserting the other elements one by one, each by
halving; longer rows are cut in two, sorted, and merged. The element that comes later in the row is
always on the left of a comparison.
-/

namespace ShellLisp.Sorting
variable {α : Type} (less : α → α → Eval Bool)

/-- The elements from the start on of which none is less than the one before, in order after those
already found, and the rest. -/
def ascending (last : α) : List α → List α → Eval (List α × List α)
  | [], found => return (found.reverse, [])
  | x :: rest, found => do
      if ← less x last then return (found.reverse, x :: rest)
      else ascending x rest (x :: found)

/-- The elements from the start on of which each is less than the one before, turned round, and the
rest. -/
def descending (last : α) : List α → List α → Eval (List α × List α)
  | [], found => return (found, [])
  | x :: rest, found => do
      if ← less x last then descending x rest (x :: found)
      else return (found, x :: rest)

/-- The run at the start of a row, in order, and the rest. -/
def firstRun : List α → Eval (List α × List α)
  | [] => return ([], [])
  | [x] => return ([x], [])
  | x :: y :: rest => do
      if ← less y x then descending less y rest [y, x] else ascending less y rest [y, x]

/-- The place behind all elements of a sorted row that a new one is not less than. -/
def insertionPlace (sorted : Array α) (pivot : α) (low high : Nat) : Eval Nat :=
  if bound : low < high ∧ high ≤ sorted.size then do
    let middle := low + (high - low) / 2
    have inside : middle < sorted.size := by omega
    if ← less pivot sorted[middle] then insertionPlace sorted pivot low middle
    else insertionPlace sorted pivot (middle + 1) high
  else return low
termination_by high - low

def insert (sorted : Array α) (pivot : α) : Eval (Array α) := do
  let place ← insertionPlace less sorted pivot 0 sorted.size
  return sorted.extract 0 place |>.push pivot |>.append (sorted.extract place sorted.size)

def insertionSort (row : List α) : Eval (List α) := do
  let (run, rest) ← firstRun less row
  let sorted ← rest.foldlM (insert less) run.toArray
  return sorted.toList

def merge : List α → List α → List α → Eval (List α)
  | [], second, found => return found.reverse ++ second
  | first, [], found => return found.reverse ++ first
  | x :: first, y :: second, found => do
      if ← less y x then merge (x :: first) second (y :: found)
      else merge first (y :: second) (x :: found)
termination_by first second => first.length + second.length

/-- How long a row must be to be cut in two. -/
def cutLength : Nat := 64

/-- Sorts a row that may be cut in two as often as given. -/
def sortWithin : Nat → List α → Eval (List α)
  | 0, row => insertionSort less row
  | cuts + 1, row =>
      if row.length < cutLength then insertionSort less row
      else do
        let half := row.length / 2
        let first ← sortWithin cuts (row.take half)
        let second ← sortWithin cuts (row.drop half)
        merge less first second []

def sort (row : List α) : Eval (List α) := sortWithin less row.length.log2 row

end ShellLisp.Sorting
