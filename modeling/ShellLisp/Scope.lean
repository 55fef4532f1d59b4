/-!
# Scopes

Scopes bind names to values and fall back on their parents. All scopes of a session are held in one
table, in which a parent comes before its children, so that every chain of parents ends. A scope
also knows the module scope, where definitions go. The main statements: a name that was defined is
found where it was defined, and defining leaves every other scope as it was.
-/

namespace ShellLisp

/-- Names bound to values, in the order in which they were first bound. -/
abbrev Bindings (α : Type) := List (String × α)

namespace Bindings
variable {α : Type}

/-- The bindings with a name bound: in its place if it was bound, else at the end. -/
def define (name : String) (value : α) : Bindings α → Bindings α
  | [] => [(name, value)]
  | (n, v) :: rest => if n = name then (n, value) :: rest else (n, v) :: define name value rest

def binds (name : String) (bindings : Bindings α) : Bool := bindings.any (·.1 == name)

def erase (name : String) (bindings : Bindings α) : Bindings α := bindings.filter (·.1 ≠ name)

theorem lookup_define_self (name : String) (value : α) (bindings : Bindings α) :
    List.lookup name (define name value bindings) = some value := by
  induction bindings with
  | nil => simp [define]
  | cons entry rest ih =>
      obtain ⟨n, v⟩ := entry
      unfold define
      split
      · rename_i same
        simp [same]
      · rename_i different
        have unequal : (name == n) = false := by simpa using Ne.symm different
        rw [List.lookup_cons, unequal]
        exact ih

theorem lookup_define_other {name other : String} (different : other ≠ name) (value : α)
    (bindings : Bindings α) :
    List.lookup other (define name value bindings) = List.lookup other bindings := by
  have unequal : (other == name) = false := by simpa using different
  induction bindings with
  | nil => simp [define, List.lookup_cons, unequal]
  | cons entry rest ih =>
      obtain ⟨n, v⟩ := entry
      unfold define
      split
      · rename_i same
        subst same
        simp [List.lookup_cons, unequal]
      · rw [List.lookup_cons, List.lookup_cons, ih]

end Bindings

/-- A scope: its own bindings, its parent, and the module scope that definitions go to. -/
structure Scope (α : Type) where
  bindings : Bindings α
  parent : Option Nat
  module : Option Nat
  deriving Inhabited

structure Scopes (α : Type) where
  frames : Array (Scope α)

namespace Scopes
variable {α : Type}

def empty : Scopes α := ⟨#[]⟩

def get? (scopes : Scopes α) (scope : Nat) : Option (Scope α) := scopes.frames[scope]?

def bindings (scopes : Scopes α) (scope : Nat) : Bindings α :=
  ((scopes.get? scope).map (·.bindings)).getD []

/-- The parent of a scope; it is older than the scope. -/
def parent? (scopes : Scopes α) (scope : Nat) : Option { p : Nat // p < scope } :=
  match (scopes.get? scope).bind (·.parent) with
  | none => none
  | some p => if older : p < scope then some ⟨p, older⟩ else none

def module? (scopes : Scopes α) (scope : Nat) : Option Nat :=
  (scopes.get? scope).bind (·.module)

def next (scopes : Scopes α) : Nat := scopes.frames.size

/-- The scopes with one more, which is without bindings; its module scope is the one given, or else
its parent's. -/
def push (scopes : Scopes α) (parent module : Option Nat) : Scopes α :=
  let inherited := match module with
    | some m => some m
    | none => parent.bind scopes.module?
  ⟨scopes.frames.push ⟨[], parent, inherited⟩⟩

/-- The scopes with one more, which is its own module scope. -/
def pushModule (scopes : Scopes α) (parent : Option Nat) : Scopes α :=
  scopes.push parent (some scopes.next)

def pushChild (scopes : Scopes α) (parent : Nat) : Scopes α := scopes.push (some parent) none

def modify (scopes : Scopes α) (scope : Nat) (change : Bindings α → Bindings α) : Scopes α :=
  ⟨scopes.frames.modify scope fun frame => { frame with bindings := change frame.bindings }⟩

def define (scopes : Scopes α) (scope : Nat) (name : String) (value : α) : Scopes α :=
  scopes.modify scope (Bindings.define name value)

def defineAll (scopes : Scopes α) (scope : Nat) (entries : Bindings α) : Scopes α :=
  entries.foldl (fun found entry => found.define scope entry.1 entry.2) scopes

/-- A scope and its parents, innermost first. -/
def chain (scopes : Scopes α) (scope : Nat) : List Nat :=
  match scopes.parent? scope with
  | none => [scope]
  | some ⟨parent, _⟩ => scope :: chain scopes parent
termination_by scope

def find? (scopes : Scopes α) (scope : Nat) (name : String) : Option Nat :=
  if Bindings.binds name (scopes.bindings scope) then some scope
  else
    match scopes.parent? scope with
    | none => none
    | some ⟨parent, _⟩ => find? scopes parent name
termination_by scope

def lookup? (scopes : Scopes α) (scope : Nat) (name : String) : Option α :=
  match List.lookup name (scopes.bindings scope) with
  | some value => some value
  | none =>
      match scopes.parent? scope with
      | none => none
      | some ⟨parent, _⟩ => lookup? scopes parent name
termination_by scope

/-- The nearest scope that binds a name and is not above the module scope of the scope given. -/
def findWithin? (scopes : Scopes α) (module : Option Nat) (scope : Nat) (name : String) :
    Option Nat :=
  if Bindings.binds name (scopes.bindings scope) then some scope
  else if module = some scope then none
  else
    match scopes.parent? scope with
    | none => none
    | some ⟨parent, _⟩ => findWithin? scopes module parent name
termination_by scope

/-- Removes the nearest binding of a name up to the module scope, and says whether there was one. -/
def delete (scopes : Scopes α) (scope : Nat) (name : String) : Bool × Scopes α :=
  match scopes.findWithin? (scopes.module? scope) scope name with
  | some holder => (true, scopes.modify holder (Bindings.erase name))
  | none => (false, scopes)

/-- Every name that is visible from a scope, innermost first and once. -/
def names (scopes : Scopes α) (scope : Nat) : List String :=
  let all := (scopes.chain scope).flatMap fun s => (scopes.bindings s).map (·.1)
  (all.foldl (fun found name => if found.contains name then found else name :: found) []).reverse

theorem bindings_modify_self {scopes : Scopes α} {scope : Nat} (present : scope < scopes.next)
    (change : Bindings α → Bindings α) :
    (scopes.modify scope change).bindings scope = change (scopes.bindings scope) := by
  simp only [next] at present
  simp [bindings, get?, modify, present, Array.getElem_modify]

theorem bindings_modify_other {scopes : Scopes α} {scope other : Nat} (different : other ≠ scope)
    (change : Bindings α → Bindings α) :
    (scopes.modify scope change).bindings other = scopes.bindings other := by
  simp [bindings, get?, modify, Array.getElem?_modify, Ne.symm different]

theorem lookup?_define_self {scopes : Scopes α} {scope : Nat} (present : scope < scopes.next)
    (name : String) (value : α) :
    (scopes.define scope name value).lookup? scope name = some value := by
  rw [lookup?, define, bindings_modify_self present, Bindings.lookup_define_self]

theorem bindings_define_other {scopes : Scopes α} {scope other : Nat} (different : other ≠ scope)
    (name : String) (value : α) :
    (scopes.define scope name value).bindings other = scopes.bindings other :=
  bindings_modify_other different _

end Scopes

end ShellLisp
