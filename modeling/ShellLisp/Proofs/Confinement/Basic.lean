import ShellLisp.Session

/-!
# Evaluations that stay within a region

A region says which values an evaluation may hold, in which scopes it may run, and in which of them
it may define names. The invariant is that everything that can be got at from the values of the
region is in the region. An action is confined to the region when it keeps the invariant, yields
values of the region, and cannot tell the session from one in which the region's scopes have been
replaced. The last part says what two runs have in common; a region may replace nothing.
-/

namespace ShellLisp

structure Region where
  value : Value → Prop
  scope : Nat → Prop
  target : Nat → Prop
  function : LibraryFunction → Prop
  admits : Nat → Nat → Scopes Value → Prop
  replaced : Scopes Value → Scopes Value
  null : value .null
  bool : ∀ b, value (.bool b)
  number : ∀ n, value (.number n)
  string : ∀ s, value (.string s)
  complex : value .complex
  tuple : ∀ items, value (.tuple items) ↔ ∀ item ∈ items, value item
  lookup : ∀ {core module scopes found name v}, admits core module scopes → scope found →
    scopes.lookup? found name = some v → value v
  lookup_replaced : ∀ {core module scopes found}, admits core module scopes → scope found →
    ∀ name, (replaced scopes).lookup? found name = scopes.lookup? found name
  module_target : ∀ {core module scopes found m}, admits core module scopes → scope found →
    scopes.module? found = some m → target m
  module_replaced : ∀ {core module scopes found}, admits core module scopes → scope found →
    (replaced scopes).module? found = scopes.module? found
  next_replaced : ∀ {core module scopes}, admits core module scopes →
    (replaced scopes).next = scopes.next
  pushChild : ∀ {core module scopes parent}, admits core module scopes → scope parent →
    admits core module (scopes.pushChild parent) ∧ scope scopes.next ∧ target scopes.next ∧
      (replaced scopes).pushChild parent = replaced (scopes.pushChild parent)
  define : ∀ {core module scopes holder v}, admits core module scopes → target holder → value v →
    ∀ name, admits core module (scopes.define holder name v) ∧
      (replaced scopes).define holder name v = replaced (scopes.define holder name v)
  delete : ∀ {core module scopes found}, admits core module scopes → scope found →
    ∀ name, admits core module (scopes.delete found name).2 ∧
      ((replaced scopes).delete found name).2 = replaced (scopes.delete found name).2

namespace Region
variable {R : Region}

def values (R : Region) (items : List Value) : Prop := ∀ item ∈ items, R.value item

def optional (R : Region) (found : Option Value) : Prop := ∀ v, found = some v → R.value v

def entries (R : Region) (found : List (Value × Value)) : Prop :=
  ∀ entry ∈ found, R.value entry.1 ∧ R.value entry.2

def cursor (R : Region) : Cursor → Prop
  | .elements array _ => R.value (.array array)
  | .pairs map _ _ => R.value (.map map)
  | .keys map _ _ => R.value (.map map)
  | .chars _ => True
  | .items rest => R.values rest
  | .sequence ref => R.value (.sequence ref)
  | .ended => True

def state (R : Region) : SequenceState → Prop
  | .counting _ => True
  | .stepping _ _ _ _ => True
  | .mapped source function _ => R.value (.sequence source) ∧ R.value function
  | .filtered source function _ => R.value (.sequence source) ∧ R.value function
  | .flattened source function _ inner =>
      R.value (.sequence source) ∧ R.value function ∧ R.cursor inner
  | .skipping source _ => R.value (.sequence source)
  | .finished => True

structure HasClosure (R : Region) (closure : Closure) : Prop where
  parameters : R.value closure.parameters
  scope : R.scope closure.scope
  name : R.value closure.name
  replaced : R.values (closure.replaced.map (·.2))

structure HasBound (R : Region) (method : BoundMethod) : Prop where
  receiver : R.value method.receiver
  replaced : R.values (method.replaced.map (·.2))

structure HasSequence (R : Region) (sequence : LazySequence) : Prop where
  label : R.value sequence.label
  state : R.state sequence.state

/-- What the values of the region are made of is in the region, and so is every value that is still
to be made. -/
structure Closed (R : Region) (store : Store) : Prop where
  array : ∀ {ref}, R.value (.array ref) → R.values (store.array ref).toList
  map : ∀ {ref}, R.value (.map ref) → R.entries (store.map ref).toList
  library : ∀ {ref cell}, R.value (.library ref) → store.libraries[ref]? = some cell →
    R.function cell.function ∧ R.value cell.name
  form : ∀ {ref cell}, R.value (.form ref) → store.forms[ref]? = some cell → R.value cell.name
  closure : ∀ {ref found}, R.value (.closure ref) → store.closures[ref]? = some found →
    R.HasClosure found
  bound : ∀ {ref method}, R.value (.bound ref) → store.bounds[ref]? = some method →
    R.HasBound method
  sequence : ∀ {ref found}, R.value (.sequence ref) → store.sequences[ref]? = some found →
    R.HasSequence found
  object : ∀ {ref}, R.value (.object ref) → R.values ((store.object ref).map (·.2))
  host : ∀ {function}, R.value (.host function) → R.values ((store.hosts function).map (·.2))
  newArray : ∀ ref, store.arrays.size ≤ ref → R.value (.array ref)
  newMap : ∀ ref, store.maps.size ≤ ref → R.value (.map ref)
  newLibrary : ∀ ref, store.libraries.size ≤ ref → R.value (.library ref)
  newClosure : ∀ ref, store.closures.size ≤ ref → R.value (.closure ref)
  newBound : ∀ ref, store.bounds.size ≤ ref → R.value (.bound ref)
  newSequence : ∀ ref, store.sequences.size ≤ ref → R.value (.sequence ref)

structure Holds (R : Region) (session : Session) : Prop where
  scopes : R.admits session.core session.module session.store.scopes
  closed : R.Closed session.store

end Region

namespace Store

def withScopes (store : Store) (scopes : Scopes Value) : Store := { store with scopes }

end Store

namespace Session

def withScopes (session : Session) (scopes : Scopes Value) : Session :=
  { session with store := session.store.withScopes scopes }

end Session

namespace Region
variable {R : Region} {α β : Type}

/-- The session that the other run is in. -/
def masked (R : Region) (session : Session) : Session :=
  session.withScopes (R.replaced session.store.scopes)

def Confines (R : Region) (action : Eval α) (result : α → Prop) : Prop :=
  ∀ session, R.Holds session →
    action.runOn (R.masked session) =
        ((action.runOn session).1, R.masked (action.runOn session).2) ∧
      R.Holds (action.runOn session).2 ∧ ∀ a, (action.runOn session).1 = .ok a → result a

end Region

end ShellLisp
