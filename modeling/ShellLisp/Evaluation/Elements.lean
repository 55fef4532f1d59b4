import ShellLisp.Evaluation.Engine

/-!
# Going through elements

Walking through the elements of strings, arrays, maps and lazy sequences. Arrays are read as they
are when an element is reached, so that elements added meanwhile are seen; a map must not gain keys
while it is walked through. Sequences without end are given up after as many elements as an engine
has patience for.
-/

namespace ShellLisp

namespace Cursor

def ofText (text : String) : Cursor := .chars text.toList

/-- The elements of a value, those of a map being its entries as pairs. -/
def entries (store : Store) : Value → Cursor
  | .string text => ofText text
  | .tuple parts => .items parts
  | .array ref => .elements ref 0
  | .map ref => .pairs ref 0 (store.map ref).size
  | .sequence ref => .sequence ref
  | _ => .ended

/-- The elements of a value, those of a map being its keys. -/
def plain (store : Store) : Value → Cursor
  | .map ref => .keys ref 0 (store.map ref).size
  | other => entries store other

end Cursor

namespace Engine

/-- The entry of a map at a position, when the map has kept its size. -/
def entryAt (map position size : Nat) : Eval (Option (Value × Value)) := do
  let entries ← Eval.ask fun store => store.map map
  if entries.size ≠ size then Eval.fault .changedDuringIteration
  return entries[position]?

/-- The next element at a cursor, and the cursor behind it. -/
def next (engine : Engine) : Cursor → Eval (Option (Value × Cursor))
  | .ended => return none
  | .elements array position => do
      let items ← Eval.ask fun store => store.array array
      return items[position]?.map (·, .elements array (position + 1))
  | .pairs map position size => do
      match ← entryAt map position size with
      | none => return none
      | some (key, value) =>
          let pair ← Eval.newArray #[key, value]
          return some (pair, .pairs map (position + 1) size)
  | .keys map position size => do
      let entry ← entryAt map position size
      return entry.map fun found => (found.1, .keys map (position + 1) size)
  | .chars [] => return none
  | .chars (c :: rest) => return some (.string c.toString, .chars rest)
  | .items [] => return none
  | .items (item :: rest) => return some (item, .items rest)
  | .sequence ref => do
      let element ← engine.advance ref
      return element.map (·, .sequence ref)

/-- Goes through at most `bound` elements with an accumulator. -/
def foldWithin (engine : Engine) {α : Type} (step : α → Value → Eval α) :
    Nat → Cursor → α → Eval α
  | 0, _, _ => Eval.fault .outOfMemory
  | bound + 1, cursor, accumulator => do
      match ← engine.next cursor with
      | none => return accumulator
      | some (element, rest) => foldWithin engine step bound rest (← step accumulator element)

def foldElements (engine : Engine) {α : Type} (cursor : Cursor) (start : α)
    (step : α → Value → Eval α) : Eval α :=
  engine.foldWithin step engine.patience cursor start

def collect (engine : Engine) (cursor : Cursor) : Eval (Array Value) :=
  engine.foldElements cursor #[] fun found element => return found.push element

def collectMap (engine : Engine) (cursor : Cursor) (action : Value → Eval Value) :
    Eval (Array Value) :=
  engine.foldElements cursor #[] fun found element => return found.push (← action element)

/-- The elements up to a number of them; no more than these are asked for. -/
def takeElements (engine : Engine) : Nat → Cursor → Array Value → Eval (Array Value)
  | 0, _, found => return found
  | count + 1, cursor, found => do
      match ← engine.next cursor with
      | none => return found
      | some (element, rest) => takeElements engine count rest (found.push element)

/-- The entries of a value in the store, as `Cursor.entries`. -/
def entries (value : Value) : Eval Cursor := Eval.ask fun store => Cursor.entries store value

/-- The elements of a value in the store, as `Cursor.plain`. -/
def elements (value : Value) : Eval Cursor := Eval.ask fun store => Cursor.plain store value

end Engine

end ShellLisp
