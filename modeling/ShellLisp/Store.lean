import ShellLisp.Json
import ShellLisp.Scope
import ShellLisp.Value

/-!
# Stores

What the values with an identity are: one table for each kind, in which a value's number is its
place, and the attributes of the host functions. Nothing is ever removed, and a new value takes the
next number. The main statements say that reading after writing gives what was written, and that
writing leaves the other values as they were.
-/

namespace ShellLisp

/-- The entries of a map, in the order in which their keys were first written. -/
abbrev Entries := Array (Value × Value)

namespace Entries

def position? (entries : Entries) (key : Value) : Option Nat :=
  entries.findIdx? fun entry => entry.1.sameKey key

def get? (entries : Entries) (key : Value) : Option Value :=
  (entries.find? fun entry => entry.1.sameKey key).map (·.2)

/-- The entries with a key bound: the first spelling of the key stays, a new key is added last. -/
def put (entries : Entries) (key value : Value) : Entries :=
  match entries.position? key with
  | some position => entries.modify position fun entry => (entry.1, value)
  | none => entries.push (key, value)

end Entries

structure Store where
  arrays : Array (Array Value)
  maps : Array Entries
  libraries : Array LibraryCell
  forms : Array FormCell
  closures : Array Closure
  bounds : Array BoundMethod
  sequences : Array LazySequence
  objects : Array (Bindings Value)
  hosts : HostFunction → Bindings Value
  scopes : Scopes Value

namespace Store

def empty : Store := ⟨#[], #[], #[], #[], #[], #[], #[], #[], fun _ => [], .empty⟩

def array (store : Store) (ref : Nat) : Array Value := (store.arrays[ref]?).getD #[]

def map (store : Store) (ref : Nat) : Entries := (store.maps[ref]?).getD #[]

def object (store : Store) (ref : Nat) : Bindings Value := (store.objects[ref]?).getD []

def newArray (store : Store) (items : Array Value) : Value × Store :=
  (.array store.arrays.size, { store with arrays := store.arrays.push items })

def newMap (store : Store) (entries : Entries) : Value × Store :=
  (.map store.maps.size, { store with maps := store.maps.push entries })

def newLibrary (store : Store) (cell : LibraryCell) : Value × Store :=
  (.library store.libraries.size, { store with libraries := store.libraries.push cell })

def newForm (store : Store) (cell : FormCell) : Value × Store :=
  (.form store.forms.size, { store with forms := store.forms.push cell })

def newClosure (store : Store) (closure : Closure) : Value × Store :=
  (.closure store.closures.size, { store with closures := store.closures.push closure })

def newBound (store : Store) (method : BoundMethod) : Value × Store :=
  (.bound store.bounds.size, { store with bounds := store.bounds.push method })

def newSequence (store : Store) (label : String) (state : SequenceState) : Value × Store :=
  (.sequence store.sequences.size,
    { store with sequences := store.sequences.push ⟨.string label, state, false⟩ })

def newObject (store : Store) (attributes : Bindings Value) : Value × Store :=
  (.object store.objects.size, { store with objects := store.objects.push attributes })

def newScope (store : Store) (parent : Nat) : Nat × Store :=
  (store.scopes.next, { store with scopes := store.scopes.pushChild parent })

def define (store : Store) (scope : Nat) (name : String) (value : Value) : Store :=
  { store with scopes := store.scopes.define scope name value }

def modifyArray (store : Store) (ref : Nat) (change : Array Value → Array Value) : Store :=
  { store with arrays := store.arrays.modify ref change }

def putKey (store : Store) (ref : Nat) (key value : Value) : Store :=
  { store with maps := store.maps.modify ref fun entries => entries.put key value }

def putAttribute (store : Store) (ref : Nat) (name : String) (value : Value) : Store :=
  { store with objects := store.objects.modify ref (Bindings.define name value) }

def putHostAttribute (store : Store) (function : HostFunction) (name : String) (value : Value) :
    Store :=
  { store with
    hosts := fun other =>
      if other = function then (store.hosts function).define name value else store.hosts other }

def renameLibrary (store : Store) (ref : Nat) (name : Value) : Store :=
  { store with libraries := store.libraries.modify ref fun cell => { cell with name } }

def renameForm (store : Store) (ref : Nat) (name : Value) : Store :=
  { store with forms := store.forms.modify ref fun cell => { cell with name } }

def modifySequence (store : Store) (ref : Nat) (change : LazySequence → LazySequence) : Store :=
  { store with sequences := store.sequences.modify ref change }

def modifyClosure (store : Store) (ref : Nat) (change : Closure → Closure) : Store :=
  { store with closures := store.closures.modify ref change }

def modifyBound (store : Store) (ref : Nat) (change : BoundMethod → BoundMethod) : Store :=
  { store with bounds := store.bounds.modify ref change }

/-- What stands in the place of parts of a function. -/
def replacedParts (store : Store) : Value → Bindings Value
  | .closure ref => (store.closures[ref]?.map (·.replaced)).getD []
  | .bound ref => (store.bounds[ref]?.map (·.replaced)).getD []
  | _ => []

def replacePart (store : Store) (function : Value) (name : String) (value : Value) : Store :=
  match function with
  | .closure ref =>
      store.modifyClosure ref fun closure =>
        { closure with replaced := Bindings.define name value closure.replaced }
  | .bound ref =>
      store.modifyBound ref fun method =>
        { method with replaced := Bindings.define name value method.replaced }
  | _ => store

/-- The store with new data: arrays and maps are made from the inside out. -/
def ofJson (store : Store) : Json → Value × Store
  | .null => (.null, store)
  | .bool b => (.bool b, store)
  | .number n => (.number n, store)
  | .string s => (.string s, store)
  | .array items =>
      let (values, after) := ofItems store items
      after.newArray values.toArray
  | .object entries =>
      let (values, after) := ofEntries store entries
      after.newMap values.toArray
where
  ofItems (store : Store) : List Json → List Value × Store
    | [] => ([], store)
    | item :: rest =>
        let (value, after) := ofJson store item
        let (values, last) := ofItems after rest
        (value :: values, last)
  ofEntries (store : Store) : List (String × Json) → List (Value × Value) × Store
    | [] => ([], store)
    | (key, item) :: rest =>
        let (value, after) := ofJson store item
        let (values, last) := ofEntries after rest
        ((.string key, value) :: values, last)

/-- Whether a value counts as true: all but null, false, zero, and what is empty. -/
def truthy (store : Store) : Value → Bool
  | .null => false
  | .bool b => b
  | .number n => !n.isZero
  | .string s => !s.isEmpty
  | .tuple items => !items.isEmpty
  | .array ref => !(store.array ref).isEmpty
  | .map ref => !(store.map ref).isEmpty
  | _ => true

theorem array_newArray (store : Store) (items : Array Value) :
    (store.newArray items).2.array store.arrays.size = items := by
  simp [newArray, array]

theorem array_newArray_other {store : Store} {ref : Nat} (older : ref < store.arrays.size)
    (items : Array Value) : (store.newArray items).2.array ref = store.array ref := by
  simp [newArray, array, Array.getElem?_push, Nat.ne_of_lt older]

theorem array_modifyArray_other {store : Store} {ref other : Nat} (different : other ≠ ref)
    (change : Array Value → Array Value) :
    (store.modifyArray ref change).array other = store.array other := by
  simp [modifyArray, array, Array.getElem?_modify, Ne.symm different]

end Store

end ShellLisp
