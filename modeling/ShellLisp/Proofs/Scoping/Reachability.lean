import Mathlib.Logic.Relation
import ShellLisp.Store

/-!
# What leads to a scope

Values are made of values, functions close over scopes, and scopes hold values and lead on to their
parents and to their module scope. A scope that cannot be got at in this way is out of reach.
-/

namespace ShellLisp

namespace Cursor

def values : Cursor → List Value
  | .elements array _ => [.array array]
  | .pairs map _ _ => [.map map]
  | .keys map _ _ => [.map map]
  | .chars _ => []
  | .items rest => rest
  | .sequence ref => [.sequence ref]
  | .ended => []

end Cursor

namespace SequenceState

def values : SequenceState → List Value
  | .counting _ => []
  | .stepping _ _ _ _ => []
  | .mapped source function _ => [.sequence source, function]
  | .filtered source function _ => [.sequence source, function]
  | .flattened source function _ inner => .sequence source :: function :: inner.values
  | .skipping source _ => [.sequence source]
  | .finished => []

end SequenceState

/-- What can hold values, and can be held by them. -/
inductive Node
  | value (v : Value)
  | scope (scope : Nat)

/-- What can be got through: scopes, functions of programs, containers and lazy sequences. -/
def Node.isHolder : Node → Bool
  | .scope _ => true
  | .value (.closure _) | .value (.tuple _) | .value (.array _) | .value (.map _)
  | .value (.sequence _) => true
  | .value _ => false

namespace Store

def contents (store : Store) : Value → List Value
  | .tuple items => items
  | .array ref => (store.array ref).toList
  | .map ref => (store.map ref).toList.map (·.1) ++ (store.map ref).toList.map (·.2)
  | .library ref => (store.libraries[ref]?.map (·.name)).toList
  | .form ref => (store.forms[ref]?.map (·.name)).toList
  | .closure ref =>
      (store.closures[ref]?.map fun found =>
        found.parameters :: found.name :: found.replaced.map (·.2)).getD []
  | .bound ref =>
      (store.bounds[ref]?.map fun method => method.receiver :: method.replaced.map (·.2)).getD []
  | .sequence ref =>
      (store.sequences[ref]?.map fun found => found.label :: found.state.values).getD []
  | .object ref => (store.object ref).map (·.2)
  | .host function => (store.hosts function).map (·.2)
  | .null | .bool _ | .number _ | .string _ | .complex => []

inductive Leads (store : Store) : Node → Node → Prop
  | content {v inner : Value} (inside : inner ∈ store.contents v) :
      Leads store (.value v) (.value inner)
  | defining {ref : Nat} {function : Closure} (found : store.closures[ref]? = some function) :
      Leads store (.value (.closure ref)) (.scope function.scope)
  | binding {scope : Nat} {entry : String × Value} (bound : entry ∈ store.scopes.bindings scope) :
      Leads store (.scope scope) (.value entry.2)
  | parent {scope : Nat} {parent : { p : Nat // p < scope }}
      (link : store.scopes.parent? scope = some parent) :
      Leads store (.scope scope) (.scope parent.1)
  | module {scope module : Nat} (link : store.scopes.module? scope = some module) :
      Leads store (.scope scope) (.scope module)

def Reaches (store : Store) : Node → Node → Prop := Relation.ReflTransGen store.Leads

def Avoids (store : Store) (hidden : Nat → Prop) (node : Node) : Prop :=
  ∀ scope, hidden scope → ¬store.Reaches node (.scope scope)

namespace Avoids
variable {store : Store} {hidden : Nat → Prop} {node next : Node}

theorem step (avoids : store.Avoids hidden node) (leads : store.Leads node next) :
    store.Avoids hidden next :=
  fun scope inside reached => avoids scope inside (.head leads reached)

theorem of_steps (outside : ∀ scope, hidden scope → node ≠ .scope scope)
    (further : ∀ next, store.Leads node next → store.Avoids hidden next) :
    store.Avoids hidden node := by
  intro scope inside reached
  rcases Relation.ReflTransGen.cases_head reached with same | ⟨next, leads, rest⟩
  · exact outside scope inside same
  · exact further next leads scope inside rest

theorem not_hidden {scope : Nat} (avoids : store.Avoids hidden (.scope scope)) : ¬hidden scope :=
  fun inside => avoids scope inside .refl

theorem of_value {v : Value} (contents : ∀ inner ∈ store.contents v,
      store.Avoids hidden (.value inner))
    (defining : ∀ ref function, v = .closure ref → store.closures[ref]? = some function →
      store.Avoids hidden (.scope function.scope)) : store.Avoids hidden (.value v) := by
  refine of_steps (fun scope _ => Node.noConfusion) fun next leads => ?_
  cases leads with
  | content inside => exact contents _ inside
  | defining found => exact defining _ _ rfl found

theorem of_empty {v : Value} (empty : store.contents v = [])
    (other : ∀ ref, v ≠ .closure ref) : store.Avoids hidden (.value v) :=
  of_value (fun inner inside => absurd inside (by simp [empty]))
    fun ref _ same => absurd same (other ref)

end Avoids

end Store

end ShellLisp
