import ShellLisp.Evaluation.Printed
import ShellLisp.Library.Function
import ShellLisp.Library.Sorting
import ShellLisp.Store.Order

/-!
# Functions on sequences

The functions of arrays. They take anything with elements; maps are taken as pairs of key and value.
Where a lazy sequence is given, those that can be lazy yield a lazy sequence, and everything else
yields an array.
-/

namespace ShellLisp.Sequences
open Arguments

def withFunction (callee : String) (place : Location) (arguments : List Value) :
    Eval (Value × Value) := do
  let (source, callback) ← two callee place arguments
  iterable place source
  function place callback
  return (source, callback)

def only (callee : String) (place : Location) (arguments : List Value) : Eval Value := do
  let source ← one callee place arguments
  iterable place source
  return source

def withCount (callee : String) (place : Location) (arguments : List Value) :
    Eval (Value × Nat) := do
  let (source, count) ← two callee place arguments
  iterable place source
  let size ← number place count
  return (source, (← Eval.lift size.truncate).toNat)

/-- Numbers from a start, up or down to an end that is left out, or up without end. -/
def range (place : Location) (arguments : List Value) : Eval Value := do
  if arguments.length < 1 ∨ 3 < arguments.length then
    Eval.problem place (.takesBetween "range" 1 3 arguments.length)
  match ← arguments.mapM (number place) with
  | [start, stop, step] =>
      if step.isZero then Eval.problem place .zeroStep
      Eval.newSequence "range" (.stepping start stop step false)
  | [start, stop] => Eval.newSequence "range" (.stepping start stop (.int 1) false)
  | start :: _ => Eval.newSequence "range" (.counting start)
  | [] => return .null

/-- An array of what a function gives for each element. -/
def map (engine : Engine) (place : Location) (arguments : List Value) : Eval Value := do
  let (source, callback) ← withFunction "map" place arguments
  match source with
  | .sequence ref => Eval.newSequence "map" (.mapped ref callback place)
  | _ =>
      let results ← engine.collectMap (← Engine.entries source) fun element =>
        engine.apply callback [element] place
      Eval.newArray results

/-- The elements of everything that a function gives for each element. -/
def flatMap (engine : Engine) (place : Location) (arguments : List Value) : Eval Value := do
  let (source, callback) ← withFunction "flatMap" place arguments
  match source with
  | .sequence ref => Eval.newSequence "flatMap" (.flattened ref callback place .ended)
  | _ =>
      let results ← engine.foldElements (← Engine.entries source) #[] fun found element => do
        let inner ← engine.apply callback [element] place
        iterable place inner
        engine.foldElements (← Engine.entries inner) found fun all item => return all.push item
      Eval.newArray results

/-- The elements for which a function gives something that counts as true. -/
def filter (engine : Engine) (place : Location) (arguments : List Value) : Eval Value := do
  let (source, callback) ← withFunction "filter" place arguments
  match source with
  | .sequence ref => Eval.newSequence "filter" (.filtered ref callback place)
  | _ =>
      let results ← engine.foldElements (← Engine.entries source) #[] fun found element => do
        let verdict ← engine.apply callback [element] place
        if ← Eval.ask fun store => store.truthy verdict then return found.push element
        else return found
      Eval.newArray results

/-- What a function gives for the result so far and the next element, over all elements. -/
def fold (engine : Engine) (place : Location) (arguments : List Value) : Eval Value := do
  let (source, start, callback) ← three "fold" place arguments
  iterable place source
  function place callback
  engine.foldElements (← Engine.entries source) start fun result element =>
    engine.apply callback [result, element] place

def head (engine : Engine) (place : Location) (arguments : List Value) : Eval Value := do
  let source ← only "head" place arguments
  match ← engine.next (← Engine.entries source) with
  | some (element, _) => return element
  | none => return .null

def all (engine : Engine) (source : Value) : Eval (Array Value) := do
  engine.collect (← Engine.entries source)

def skip (engine : Engine) (label : String) (source : Value) (count : Nat) : Eval Value := do
  match source with
  | .sequence ref => Eval.newSequence label (.skipping ref count)
  | _ => Eval.newArray ((← all engine source).toList.drop count).toArray

def tail (engine : Engine) (place : Location) (arguments : List Value) : Eval Value := do
  skip engine "tail" (← only "tail" place arguments) 1

def init (engine : Engine) (place : Location) (arguments : List Value) : Eval Value := do
  Eval.newArray (← all engine (← only "init" place arguments)).pop

def last (engine : Engine) (place : Location) (arguments : List Value) : Eval Value := do
  let source ← only "last" place arguments
  engine.foldElements (← Engine.entries source) .null fun _ element => return element

def countLimit : Nat := twoTo 63 - 1

/-- The first elements, as many as there are up to a number; no more than these are asked for. -/
def take (engine : Engine) (place : Location) (arguments : List Value) : Eval Value := do
  let (source, count) ← withCount "take" place arguments
  if countLimit < count then Eval.fault .takeOutOfRange
  Eval.newArray (← engine.takeElements count (← Engine.entries source) #[])

/-- The elements without as many as given at the start. -/
def drop (engine : Engine) (place : Location) (arguments : List Value) : Eval Value := do
  let (source, count) ← withCount "drop" place arguments
  if countLimit < count then Eval.fault .skipOutOfRange
  skip engine "drop" source count

def length (engine : Engine) (place : Location) (arguments : List Value) : Eval Value := do
  let source ← only "length" place arguments
  let count ← engine.foldElements (← Engine.entries source) 0 fun found _ => return found + 1
  return .int (count : Nat)

/-- The printed elements with a separator between each two, which is a space when none is given. -/
def join (engine : Engine) (place : Location) (arguments : List Value) : Eval Value := do
  let (source, given) ← oneOrTwo "join" place arguments
  iterable place source
  let separator ← string place (given.getD (.string " "))
  let parts ← engine.foldElements (← Engine.entries source) [] fun found element => do
    return (← Eval.print element) :: found
  return .string (separator.intercalate parts.reverse)

def reverse (engine : Engine) (place : Location) (arguments : List Value) : Eval Value := do
  Eval.newArray (← all engine (← only "reverse" place arguments)).reverse

/-- The elements in their own order, or in that of a function that gives a negative number when its
first argument comes first. -/
def sort (engine : Engine) (place : Location) (arguments : List Value) : Eval Value := do
  let (source, given) ← oneOrTwo "sort" place arguments
  iterable place source
  let items ← all engine source
  match given with
  | none =>
      let sorted ← Sorting.sort
        (fun a b => Eval.read fun store => store.holds .less a b) items.toList
      Eval.newArray sorted.toArray
  | some callback =>
      function place callback
      let less (a b : Value) : Eval Bool := do
        let verdict ← engine.apply callback [a, b] place
        Eval.read fun store => store.holds .less verdict (.int 0)
      Eval.newArray (← Sorting.sort less items.toList).toArray

def concat (engine : Engine) (place : Location) (arguments : List Value) : Eval Value := do
  arguments.forM (iterable place)
  let items ← arguments.foldlM (fun found source => return found ++ (← all engine source)) #[]
  Eval.newArray items

def call (engine : Engine) (place : Location) (arguments : List Value) :
    ArrayFunction → Eval Value
  | .range => range place arguments
  | .from => Eval.newArray arguments.toArray
  | .toArray => do Eval.newArray (← all engine (← only "toArray" place arguments))
  | .map => map engine place arguments
  | .flatMap => flatMap engine place arguments
  | .filter => filter engine place arguments
  | .fold => fold engine place arguments
  | .head => head engine place arguments
  | .tail => tail engine place arguments
  | .init => init engine place arguments
  | .last => last engine place arguments
  | .take => take engine place arguments
  | .drop => drop engine place arguments
  | .length => length engine place arguments
  | .join => join engine place arguments
  | .reverse => reverse engine place arguments
  | .sort => sort engine place arguments
  | .concat => concat engine place arguments

end ShellLisp.Sequences
