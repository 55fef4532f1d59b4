import ShellLisp.Evaluation.Elements
import ShellLisp.Library.Arguments
import ShellLisp.Number.Arithmetic

/-!
# Lazy sequences

How a lazy sequence gives its next element. A sequence that ended or failed has no more elements. A
sequence that computes an element from those of another must not be asked for one meanwhile.
-/

namespace ShellLisp.LazySequence

def stateOf (ref : Nat) : Eval SequenceState :=
  Eval.ask fun store => (store.sequences[ref]?.map (·.state)).getD .finished

def isRunning (ref : Nat) : Eval Bool :=
  Eval.ask fun store => (store.sequences[ref]?.map (·.running)).getD false

def setState (ref : Nat) (state : SequenceState) : Eval Unit :=
  Eval.update fun store => store.modifySequence ref fun sequence => { sequence with state }

def setRunning (ref : Nat) (running : Bool) : Eval Unit :=
  Eval.update fun store => store.modifySequence ref fun sequence => { sequence with running }

def isBefore (current stop step : Number) : Bool :=
  if step.isPositive then current.less stop else stop.less current

/-- The next number of a stepping sequence, and its state behind that number. -/
def advanceStepping (current stop step : Number) (started : Bool) :
    Except Fault (Option (Value × SequenceState)) := do
  let next ← if started then current.add step else pure current
  if isBefore next stop step then return some (.number next, .stepping next stop step true)
  else return none

def advanceFiltered (engine : Engine) (source : Nat) (callback : Value) (place : Location) :
    Nat → Eval (Option Value)
  | 0 => Eval.fault .outOfMemory
  | bound + 1 => do
      match ← engine.advance source with
      | none => return none
      | some element =>
          let verdict ← engine.apply callback [element] place
          if ← Eval.ask fun store => store.truthy verdict then return some element
          else advanceFiltered engine source callback place bound

/-- The next element of what a function gives for each element, and the cursor behind it. -/
def advanceFlattened (engine : Engine) (source : Nat) (callback : Value) (place : Location) :
    Nat → Cursor → Eval (Option (Value × Cursor))
  | 0, _ => Eval.fault .outOfMemory
  | bound + 1, inner => do
      match ← engine.next inner with
      | some found => return some found
      | none =>
          match ← engine.advance source with
          | none => return none
          | some element =>
              let result ← engine.apply callback [element] place
              Arguments.iterable place result
              advanceFlattened engine source callback place bound (← Engine.entries result)

def compute (engine : Engine) : SequenceState → Eval (Option (Value × SequenceState))
  | .stepping current stop step started => Eval.lift (advanceStepping current stop step started)
  | .mapped source callback place => do
      match ← engine.advance source with
      | none => return none
      | some element =>
          return some (← engine.apply callback [element] place, .mapped source callback place)
  | .filtered source callback place => do
      let found ← advanceFiltered engine source callback place engine.patience
      return found.map (·, .filtered source callback place)
  | .flattened source callback place inner => do
      let found ← advanceFlattened engine source callback place engine.patience inner
      return found.map fun (element, rest) => (element, .flattened source callback place rest)
  | _ => return none

/-- Runs an action on a sequence; when it fails, the sequence is finished. -/
def finishing {α : Type} (ref : Nat) (action : Eval α) : Eval α :=
  tryCatch action fun failure => do
    setState ref .finished
    setRunning ref false
    throw failure

/-- The next element of a sequence that computes its elements one at a time. -/
def advanceComputed (engine : Engine) (ref : Nat) (state : SequenceState) :
    Eval (Option Value) := do
  if ← isRunning ref then Eval.fault .alreadyRunning
  setRunning ref true
  let found ← finishing ref (compute engine state)
  setRunning ref false
  match found with
  | some (element, after) =>
      setState ref after
      return some element
  | none =>
      setState ref .finished
      return none

/-- The element of the source behind those that a sequence still skips. -/
def advanceSkipping (engine : Engine) (ref source : Nat) : Nat → Eval (Option Value)
  | 0 => engine.advance source
  | skip + 1 => do
      match ← engine.advance source with
      | none => return none
      | some _ =>
          setState ref (.skipping source skip)
          advanceSkipping engine ref source skip

def advance (engine : Engine) (ref : Nat) : Eval (Option Value) := do
  match ← stateOf ref with
  | .finished => return none
  | .counting next =>
      setState ref (.counting (← Eval.lift (next.add (.int 1))))
      return some (.number next)
  | .skipping source skip => do
      match ← finishing ref (advanceSkipping engine ref source skip) with
      | some element => return some element
      | none =>
          setState ref .finished
          return none
  | state => advanceComputed engine ref state

end ShellLisp.LazySequence
