import ShellLisp.Store

/-!
# Scopes after a change

What binding, erasing and adding do to the other scopes and to the links between scopes.
-/

namespace ShellLisp

namespace Scopes
variable {α : Type} {scopes : Scopes α}

def parentLink (scopes : Scopes α) (scope : Nat) : Option Nat :=
  (scopes.get? scope).bind (·.parent)

theorem parent?_eq_some {scope parent : Nat} (older : parent < scope) :
    scopes.parent? scope = some ⟨parent, older⟩ ↔ scopes.parentLink scope = some parent := by
  unfold parent? parentLink
  cases (scopes.get? scope).bind (·.parent) with
  | none => simp
  | some found =>
      by_cases before : found < scope
      · simp [before]
      · simp only [before, dite_false, reduceCtorEq, Option.some.injEq, false_iff]
        exact fun same => before (same ▸ older)

theorem parentLink_of_parent? {scope : Nat} {parent : { p : Nat // p < scope }}
    (linked : scopes.parent? scope = some parent) : scopes.parentLink scope = some parent.1 :=
  (parent?_eq_some parent.2).mp linked

theorem parent?_congr {others : Scopes α} {scope : Nat}
    (same : others.parentLink scope = scopes.parentLink scope) :
    others.parent? scope = scopes.parent? scope := by
  unfold parent?
  rw [show (others.get? scope).bind (·.parent) = others.parentLink scope from rfl, same]
  rfl

theorem get?_modify (scope : Nat) (change : Bindings α → Bindings α) (other : Nat) :
    (scopes.modify scope change).get? other =
      if scope = other then
        (scopes.get? other).map fun frame => { frame with bindings := change frame.bindings }
      else scopes.get? other := Array.getElem?_modify

theorem next_modify (scope : Nat) (change : Bindings α → Bindings α) :
    (scopes.modify scope change).next = scopes.next := Array.size_modify

theorem parentLink_modify (scope : Nat) (change : Bindings α → Bindings α) (other : Nat) :
    (scopes.modify scope change).parentLink other = scopes.parentLink other := by
  unfold parentLink
  rw [get?_modify]
  split
  · cases scopes.get? other <;> rfl
  · rfl

theorem module?_modify (scope : Nat) (change : Bindings α → Bindings α) (other : Nat) :
    (scopes.modify scope change).module? other = scopes.module? other := by
  unfold module?
  rw [get?_modify]
  split
  · cases scopes.get? other <;> rfl
  · rfl

theorem bindings_modify (scopes : Scopes α) (scope : Nat) (change : Bindings α → Bindings α)
    (other : Nat) :
    (scopes.modify scope change).bindings other = scopes.bindings other ∨
      other = scope ∧ (scopes.modify scope change).bindings other =
        change (scopes.bindings other) := by
  by_cases same : other = scope
  · subst same
    by_cases present : other < scopes.next
    · exact .inr ⟨rfl, bindings_modify_self present change⟩
    · left
      unfold bindings
      have absent : scopes.get? other = none := Array.getElem?_eq_none (Nat.le_of_not_lt present)
      rw [get?_modify, if_pos rfl, absent]
      rfl
  · exact .inl (bindings_modify_other same change)

theorem get?_push (parent module : Option Nat) (other : Nat) :
    (scopes.push parent module).get? other =
      if other = scopes.next then some ⟨[], parent, module <|> parent.bind scopes.module?⟩
      else scopes.get? other := by
  unfold push get? next
  rw [Array.getElem?_push]
  cases module <;> rfl

theorem next_push (parent module : Option Nat) :
    (scopes.push parent module).next = scopes.next + 1 := Array.size_push ..

theorem bindings_push (parent module : Option Nat) (other : Nat) :
    (scopes.push parent module).bindings other = scopes.bindings other := by
  unfold bindings
  rw [get?_push]
  split
  · rename_i same
    rw [same, show scopes.get? scopes.next = none from Array.getElem?_eq_none (Nat.le_refl _)]
    rfl
  · rfl

theorem parentLink_push (parent module : Option Nat) (other : Nat) :
    (scopes.push parent module).parentLink other =
      if other = scopes.next then parent else scopes.parentLink other := by
  unfold parentLink
  rw [get?_push]
  split <;> rfl

theorem module?_push (parent module : Option Nat) (other : Nat) :
    (scopes.push parent module).module? other =
      if other = scopes.next then module <|> parent.bind scopes.module?
      else scopes.module? other := by
  unfold module?
  rw [get?_push]
  split <;> rfl

theorem module?_absent {scope : Nat} (absent : scopes.next ≤ scope) :
    scopes.module? scope = none := by
  unfold module?
  rw [show scopes.get? scope = none from Array.getElem?_eq_none absent]
  rfl

theorem present_of_module? {scope module : Nat} (link : scopes.module? scope = some module) :
    scope < scopes.next := by
  refine Nat.lt_of_not_le fun absent => ?_
  cases link.symm.trans (module?_absent absent)

theorem present_of_parentLink {scope parent : Nat} (link : scopes.parentLink scope = some parent) :
    scope < scopes.next := by
  refine Nat.lt_of_not_le fun absent => ?_
  unfold parentLink at link
  rw [show scopes.get? scope = none from Array.getElem?_eq_none absent] at link
  cases link

theorem delete_eq (scopes : Scopes α) (found : Nat) (name : String) :
    (scopes.delete found name).2 = scopes ∨
      ∃ holder, scopes.findWithin? (scopes.module? found) found name = some holder ∧
        (scopes.delete found name).2 = scopes.modify holder (Bindings.erase name) := by
  unfold delete
  cases there : scopes.findWithin? (scopes.module? found) found name with
  | none => exact .inl rfl
  | some holder => exact .inr ⟨holder, rfl, rfl⟩

/-- A property that holds of a scope and goes on to parents, up to the module scope, holds of the
scope that a deletion finds. -/
theorem findWithin?_has (property : Nat → Prop) {module : Option Nat} {name : String}
    (goesUp : ∀ scope parent, property scope → module ≠ some scope → parent < scope →
      scopes.parentLink scope = some parent → property parent) (scope holder : Nat)
    (start : property scope)
    (found : scopes.findWithin? module scope name = some holder) : property holder := by
  induction scope using Nat.strongRecOn with
  | _ scope ih =>
      rw [findWithin?] at found
      split at found
      · cases found
        exact start
      · split at found
        · cases found
        · rename_i beyond
          split at found
          · cases found
          · rename_i parent older linked
            have above := parentLink_of_parent? linked
            exact ih parent older (goesUp scope parent start beyond older above) found

theorem mem_chain_self (scope : Nat) : scope ∈ scopes.chain scope := by
  rw [chain]
  split
  · exact List.mem_singleton_self scope
  · exact List.mem_cons_self

theorem chain_of_root {scope : Nat} (root : scopes.parentLink scope = none) :
    scopes.chain scope = [scope] := by
  rw [chain]
  split
  · rfl
  · rename_i parent older linked
    cases root.symm.trans (parentLink_of_parent? linked)

theorem ext_get? {others : Scopes α} (same : ∀ scope, scopes.get? scope = others.get? scope) :
    scopes = others :=
  congrArg Scopes.mk (Array.ext_getElem? same)

theorem get?_present {scope : Nat} (present : scope < scopes.next) :
    scopes.get? scope =
      some ⟨scopes.bindings scope, scopes.parentLink scope, scopes.module? scope⟩ := by
  have there : scopes.get? scope = some scopes.frames[scope] := Array.getElem?_eq_getElem present
  unfold bindings parentLink module?
  rw [there]
  rfl

theorem ext_parts {others : Scopes α} (next : scopes.next = others.next)
    (bindings : ∀ scope, scope < scopes.next → scopes.bindings scope = others.bindings scope)
    (parent : ∀ scope, scopes.parentLink scope = others.parentLink scope)
    (module : ∀ scope, scopes.module? scope = others.module? scope) : scopes = others := by
  refine ext_get? fun scope => ?_
  by_cases present : scope < scopes.next
  · rw [get?_present present, get?_present (next ▸ present), bindings scope present, parent, module]
  · have absent : scopes.next ≤ scope := Nat.le_of_not_lt present
    have missing : others.next ≤ scope := next ▸ absent
    exact (Array.getElem?_eq_none absent).trans (Array.getElem?_eq_none missing).symm

/-- The scopes with the bindings of some of them exchanged for others. -/
def substitute (hidden : Nat → Prop) [DecidablePred hidden] (others : Nat → Bindings α)
    (scopes : Scopes α) : Scopes α :=
  ⟨scopes.frames.mapIdx fun scope frame =>
    if hidden scope then { frame with bindings := others scope } else frame⟩

section
variable {hidden : Nat → Prop} [DecidablePred hidden] {others : Nat → Bindings α}

theorem get?_substitute (scope : Nat) :
    (scopes.substitute hidden others).get? scope = (scopes.get? scope).map fun frame =>
      if hidden scope then { frame with bindings := others scope } else frame :=
  Array.getElem?_mapIdx

theorem next_substitute : (scopes.substitute hidden others).next = scopes.next :=
  Array.size_mapIdx

theorem bind_get?_substitute {field : Scope α → Option Nat}
    (ignores : ∀ frame bindings, field { frame with bindings := bindings } = field frame)
    (scope : Nat) :
    ((scopes.substitute hidden others).get? scope).bind field = (scopes.get? scope).bind field := by
  rw [get?_substitute]
  cases scopes.get? scope with
  | none => rfl
  | some frame =>
      simp only [Option.map_some, Option.bind_some]
      split
      · exact ignores frame _
      · rfl

theorem parentLink_substitute (scope : Nat) :
    (scopes.substitute hidden others).parentLink scope = scopes.parentLink scope :=
  bind_get?_substitute (fun _ _ => rfl) scope

theorem module?_substitute (scope : Nat) :
    (scopes.substitute hidden others).module? scope = scopes.module? scope :=
  bind_get?_substitute (fun _ _ => rfl) scope

theorem bindings_substitute {scope : Nat} (shown : ¬hidden scope) :
    (scopes.substitute hidden others).bindings scope = scopes.bindings scope := by
  unfold bindings
  rw [get?_substitute]
  cases scopes.get? scope with
  | none => rfl
  | some frame => simp only [if_neg shown, Option.map_some]

theorem bindings_substitute_hidden {scope : Nat} (inside : hidden scope)
    (present : scope < scopes.next) :
    (scopes.substitute hidden others).bindings scope = others scope := by
  unfold bindings
  rw [get?_substitute, show scopes.get? scope = some scopes.frames[scope] from
    Array.getElem?_eq_getElem present]
  simp only [if_pos inside, Option.map_some, Option.getD_some]

theorem substitute_modify {holder : Nat} (shown : ¬hidden holder)
    (change : Bindings α → Bindings α) :
    (scopes.substitute hidden others).modify holder change =
      (scopes.modify holder change).substitute hidden others := by
  refine ext_get? fun scope => ?_
  rw [get?_modify, get?_substitute, get?_substitute, get?_modify]
  split
  · rename_i same
    subst same
    cases scopes.get? holder with
    | none => rfl
    | some frame => simp only [if_neg shown, Option.map_some]
  · rfl

theorem substitute_push (shown : ¬hidden scopes.next) (parent module : Option Nat) :
    (scopes.substitute hidden others).push parent module =
      (scopes.push parent module).substitute hidden others := by
  have modules : (scopes.substitute hidden others).module? = scopes.module? :=
    funext module?_substitute
  refine ext_get? fun scope => ?_
  rw [get?_push, get?_substitute, get?_substitute, get?_push, next_substitute, modules]
  split
  · rename_i same
    subst same
    simp only [if_neg shown, Option.map_some]
  · rfl

end

end Scopes

end ShellLisp
