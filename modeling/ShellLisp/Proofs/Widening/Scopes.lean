import Mathlib.Data.List.InsertIdx
import ShellLisp.Proofs.Scoping.Frames

/-!
# One more scope among the scopes

A scope may be put in at any position among others when those behind it are renumbered. What can be
looked up, defined or deleted from the others stays the same. The last part is about scopes whose
links all lead to scopes that are there: a new scope at the end is then one that was put in.
-/

namespace ShellLisp

namespace Scopes
variable {α : Type} {position : Nat}

/-- The number of a scope once another one has been put in at a position. -/
def renumber (position scope : Nat) : Nat := if scope < position then scope else scope + 1

theorem renumber_of_lt {scope : Nat} (before : scope < position) :
    renumber position scope = scope := if_pos before

theorem renumber_of_le {scope : Nat} (behind : position ≤ scope) :
    renumber position scope = scope + 1 := if_neg (Nat.not_lt_of_le behind)

theorem renumber_lt {scope other : Nat} :
    renumber position scope < renumber position other ↔ scope < other := by
  unfold renumber
  split <;> split <;> omega

theorem renumber_injective : Function.Injective (renumber position) := by
  intro scope other same
  unfold renumber at same
  split at same <;> split at same <;> omega

theorem renumber_ne (scope : Nat) : renumber position scope ≠ position := by
  unfold renumber
  split <;> omega

theorem exists_renumber {scope : Nat} (different : scope ≠ position) :
    ∃ old, scope = renumber position old := by
  rcases Nat.lt_or_gt_of_ne different with before | behind
  · exact ⟨scope, (renumber_of_lt before).symm⟩
  · refine ⟨scope - 1, ?_⟩
    rw [renumber_of_le (by omega)]
    omega

end Scopes

def Scope.renumbered {α : Type} (position : Nat) (frame : Scope α) : Scope α :=
  { frame with
    parent := frame.parent.map (Scopes.renumber position)
    module := frame.module.map (Scopes.renumber position) }

namespace Scopes
variable {α : Type}

def insert (position : Nat) (frame : Scope α) (scopes : Scopes α) : Scopes α :=
  ⟨((scopes.frames.toList.map (·.renumbered position)).insertIdx position frame).toArray⟩

variable {position : Nat} {frame : Scope α} {scopes : Scopes α}

theorem get?_insert (scope : Nat) :
    (scopes.insert position frame).get? (renumber position scope) =
      (scopes.get? scope).map (·.renumbered position) := by
  unfold insert get? renumber
  rw [List.getElem?_toArray, List.getElem?_insertIdx]
  split
  · rename_i before
    rw [List.getElem?_map, Array.getElem?_toList]
  · rename_i behind
    have after : ¬scope + 1 < position := fun before => behind (by omega)
    have apart : scope + 1 ≠ position := by omega
    rw [if_neg after, if_neg apart, Nat.add_sub_cancel, List.getElem?_map, Array.getElem?_toList]

theorem bindings_insert (scope : Nat) :
    (scopes.insert position frame).bindings (renumber position scope) = scopes.bindings scope := by
  unfold bindings
  rw [get?_insert]
  cases scopes.get? scope <;> rfl

theorem bindings_insert_of_lt {scope : Nat} (before : scope < position) :
    (scopes.insert position frame).bindings scope = scopes.bindings scope := by
  have same : (scopes.insert position frame).bindings (renumber position scope) = _ :=
    bindings_insert scope
  rwa [renumber_of_lt before] at same

theorem parentLink_insert (scope : Nat) :
    (scopes.insert position frame).parentLink (renumber position scope) =
      (scopes.parentLink scope).map (renumber position) := by
  unfold parentLink
  rw [get?_insert]
  cases scopes.get? scope <;> rfl

theorem module?_insert (scope : Nat) :
    (scopes.insert position frame).module? (renumber position scope) =
      (scopes.module? scope).map (renumber position) := by
  unfold module?
  rw [get?_insert]
  cases scopes.get? scope <;> rfl

theorem parent?_insert (position : Nat) (frame : Scope α) (scopes : Scopes α) (scope : Nat) :
    scopes.parent? scope = none ∧
        (scopes.insert position frame).parent? (renumber position scope) = none ∨
      ∃ parent, ∃ (older : parent < scope)
        (older' : renumber position parent < renumber position scope),
        scopes.parent? scope = some ⟨parent, older⟩ ∧
          (scopes.insert position frame).parent? (renumber position scope) =
            some ⟨renumber position parent, older'⟩ := by
  have link : (scopes.insert position frame).parentLink (renumber position scope) = _ :=
    parentLink_insert scope
  cases found : scopes.parent? scope with
  | some above =>
      obtain ⟨parent, older⟩ := above
      have older' : renumber position parent < renumber position scope := renumber_lt.mpr older
      refine .inr ⟨parent, older, older', rfl, (parent?_eq_some older').mpr ?_⟩
      rw [link, parentLink_of_parent? found]
      rfl
  | none =>
      refine .inl ⟨rfl, ?_⟩
      cases found' : (scopes.insert position frame).parent? (renumber position scope) with
      | none => rfl
      | some above =>
          obtain ⟨parent', older'⟩ := above
          rw [parentLink_of_parent? found'] at link
          obtain ⟨parent, linked, rfl⟩ := Option.map_eq_some_iff.mp link.symm
          rw [(parent?_eq_some (renumber_lt.mp older')).mpr linked] at found
          cases found

theorem lookup?_insert (scope : Nat) (name : String) :
    (scopes.insert position frame).lookup? (renumber position scope) name =
      scopes.lookup? scope name := by
  induction scope using Nat.strongRecOn with
  | _ scope ih =>
      rw [lookup?, lookup?, bindings_insert]
      split
      · rfl
      · rcases parent?_insert position frame scopes scope with
          ⟨none, none'⟩ | ⟨parent, older, older', found, found'⟩
        · rw [none, none']
        · rw [found, found']
          exact ih parent older

theorem lookup?_insert_of_lt {scope : Nat} (before : scope < position) (name : String) :
    (scopes.insert position frame).lookup? scope name = scopes.lookup? scope name := by
  have same : (scopes.insert position frame).lookup? (renumber position scope) name = _ :=
    lookup?_insert scope name
  rwa [renumber_of_lt before] at same

theorem findWithin?_insert (module : Option Nat) (scope : Nat) (name : String) :
    (scopes.insert position frame).findWithin? (module.map (renumber position))
        (renumber position scope) name =
      (scopes.findWithin? module scope name).map (renumber position) := by
  have last (scope : Nat) : module.map (renumber position) = some (renumber position scope) ↔
      module = some scope := by
    cases module with
    | none => simp
    | some module => simp [renumber_injective.eq_iff]
  induction scope using Nat.strongRecOn with
  | _ scope ih =>
      rw [findWithin?, findWithin?, bindings_insert]
      split
      · rfl
      · simp only [last]
        split
        · rfl
        · rcases parent?_insert position frame scopes scope with
            ⟨none, none'⟩ | ⟨parent, older, older', found, found'⟩
          · rw [none, none']
            rfl
          · rw [found, found']
            exact ih parent older

section
variable (fits : position ≤ scopes.next)
include fits

theorem next_insert (frame : Scope α) : (scopes.insert position frame).next = scopes.next + 1 := by
  unfold next at fits ⊢
  unfold insert
  rw [List.size_toArray, List.length_insertIdx_of_le_length (by simpa using fits)]
  simp

theorem get?_insert_self : (scopes.insert position frame).get? position = some frame := by
  unfold next at fits
  unfold insert get?
  rw [List.getElem?_toArray, List.getElem?_insertIdx, if_neg (Nat.lt_irrefl _), if_pos rfl,
    if_pos (by simpa using fits)]

theorem insert_modify (scope : Nat) (change : Bindings α → Bindings α) :
    (scopes.insert position frame).modify (renumber position scope) change =
      (scopes.modify scope change).insert position frame := by
  have fits' : position ≤ (scopes.modify scope change).next := by rwa [next_modify]
  refine ext_get? fun other => ?_
  rw [get?_modify]
  by_cases same : other = position
  · subst same
    rw [if_neg (renumber_ne scope), get?_insert_self fits, get?_insert_self fits']
  · obtain ⟨old, rfl⟩ := exists_renumber same
    rw [get?_insert, get?_insert, get?_modify]
    simp only [renumber_injective.eq_iff]
    split
    · cases scopes.get? old <;> rfl
    · rfl

theorem insert_modify_self (change : Bindings α → Bindings α) :
    (scopes.insert position frame).modify position change =
      scopes.insert position { frame with bindings := change frame.bindings } := by
  refine ext_get? fun other => ?_
  rw [get?_modify]
  by_cases same : other = position
  · subst same
    rw [if_pos rfl, get?_insert_self fits, get?_insert_self fits]
    rfl
  · obtain ⟨old, rfl⟩ := exists_renumber same
    rw [if_neg (Ne.symm same), get?_insert, get?_insert]

theorem insert_delete (scope : Nat) (name : String) :
    ((scopes.insert position frame).delete (renumber position scope) name).2 =
      (scopes.delete scope name).2.insert position frame := by
  unfold delete
  rw [module?_insert, findWithin?_insert]
  cases scopes.findWithin? (scopes.module? scope) scope name with
  | none => rfl
  | some holder => exact insert_modify fits holder _

theorem insert_push (parent module : Option Nat) :
    (scopes.insert position frame).push (parent.map (renumber position))
        (module.map (renumber position)) =
      (scopes.push parent module).insert position frame := by
  have fits' : position ≤ (scopes.push parent module).next := by
    rw [next_push]
    exact Nat.le_succ_of_le fits
  have last : (scopes.insert position frame).next = renumber position scopes.next := by
    rw [next_insert fits frame, renumber_of_le fits]
  have inherited : (parent.map (renumber position)).bind (scopes.insert position frame).module? =
      (parent.bind scopes.module?).map (renumber position) := by
    cases parent with
    | none => rfl
    | some parent => exact module?_insert parent
  refine ext_get? fun other => ?_
  rw [get?_push, last]
  by_cases same : other = position
  · subst same
    rw [if_neg (renumber_ne _).symm, get?_insert_self fits, get?_insert_self fits']
  · obtain ⟨old, rfl⟩ := exists_renumber same
    rw [get?_insert, get?_insert, get?_push, inherited]
    simp only [renumber_injective.eq_iff]
    split
    · cases module <;> rfl
    · rfl

end

end Scopes

/-! ## Links to scopes that are there -/

structure Scope.LinksBelow {α : Type} (bound : Nat) (frame : Scope α) : Prop where
  parent : ∀ other ∈ frame.parent, other < bound
  module : ∀ other ∈ frame.module, other < bound

namespace Scope.LinksBelow
variable {α : Type} {bound : Nat} {frame : Scope α}

theorem mono (links : frame.LinksBelow bound) {other : Nat} (less : bound ≤ other) :
    frame.LinksBelow other where
  parent above there := Nat.lt_of_lt_of_le (links.parent above there) less
  module own there := Nat.lt_of_lt_of_le (links.module own there) less

theorem renumbered_eq (links : frame.LinksBelow bound) : frame.renumbered bound = frame := by
  obtain ⟨bindings, parent, module⟩ := frame
  have kept (link : Option Nat) (below : ∀ other ∈ link, other < bound) :
      link.map (Scopes.renumber bound) = link := by
    cases link with
    | none => rfl
    | some other => exact congrArg some (Scopes.renumber_of_lt (below other rfl))
  unfold renumbered
  rw [kept parent links.parent, kept module links.module]

end Scope.LinksBelow

namespace Scopes
variable {α : Type} {position : Nat} {frame : Scope α} {scopes : Scopes α}

def Whole (scopes : Scopes α) : Prop :=
  ∀ scope frame, scopes.get? scope = some frame → frame.LinksBelow scopes.next

namespace Whole

theorem module (whole : scopes.Whole) {scope own : Nat} (link : scopes.module? scope = some own) :
    own < scopes.next := by
  obtain ⟨frame, there, linked⟩ := Option.bind_eq_some_iff.mp link
  exact (whole scope frame there).module own linked

theorem modify (whole : scopes.Whole) (scope : Nat) (change : Bindings α → Bindings α) :
    (scopes.modify scope change).Whole := by
  intro other frame there
  rw [get?_modify] at there
  rw [next_modify]
  split at there
  · obtain ⟨old, found, rfl⟩ := Option.map_eq_some_iff.mp there
    obtain ⟨parent, module⟩ := whole other old found
    exact ⟨parent, module⟩
  · exact whole other frame there

theorem delete (whole : scopes.Whole) (scope : Nat) (name : String) :
    (scopes.delete scope name).2.Whole := by
  rcases delete_eq scopes scope name with same | ⟨holder, -, same⟩
  · rwa [same]
  · rw [same]
    exact whole.modify holder _

theorem push (whole : scopes.Whole) {parent module : Option Nat}
    (above : ∀ other ∈ parent, other < scopes.next)
    (own : ∀ other ∈ module, other ≤ scopes.next) : (scopes.push parent module).Whole := by
  intro scope frame there
  rw [get?_push] at there
  rw [next_push]
  split at there
  · cases there
    refine ⟨fun other linked => Nat.lt_succ_of_lt (above other linked), fun other linked => ?_⟩
    cases module with
    | some given =>
        cases linked
        exact Nat.lt_succ_of_le (own _ rfl)
    | none =>
        obtain ⟨above, -, inherited⟩ := Option.bind_eq_some_iff.mp linked
        exact Nat.lt_succ_of_lt (whole.module inherited)
  · exact (whole scope frame there).mono (Nat.le_succ _)

/-- A scope added at the end is one that was put in. -/
theorem push_eq_insert (whole : scopes.Whole) (parent module : Option Nat) :
    scopes.push parent module =
      scopes.insert scopes.next ⟨[], parent, module <|> parent.bind scopes.module?⟩ := by
  have fits := Nat.le_refl scopes.next
  refine ext_get? fun scope => ?_
  rw [get?_push]
  by_cases last : scope = scopes.next
  · rw [if_pos last, last, get?_insert_self fits]
  rw [if_neg last]
  obtain ⟨old, rfl⟩ := exists_renumber last
  rw [get?_insert]
  by_cases before : old < scopes.next
  · rw [renumber_of_lt before]
    cases found : scopes.get? old with
    | none => rfl
    | some frame => exact congrArg some (whole old frame found).renumbered_eq.symm
  · have absent : scopes.next ≤ old := Nat.le_of_not_lt before
    rw [renumber_of_le absent, show scopes.get? old = none from Array.getElem?_eq_none absent]
    exact Array.getElem?_eq_none (Nat.le_succ_of_le absent)

end Whole

end Scopes

end ShellLisp
