import Mathlib.Data.List.Forall2
import ShellLisp.Store.Equality

/-!
# Comparing elements

Rows are equal when their elements are equal one by one, and maps when each entry of the first has
an equal value in the second. An answer that is found within some depth stays the same within more.
-/

namespace ShellLisp.Store

def equalMaps (test : Value → Value → Except Failure Bool) (entries others : Entries) :
    Except Failure Bool :=
  if entries.size = others.size then allEntries test others entries.toList else .ok false

/-- A test that answers what another one answers, and may answer more. -/
def Refines (test finer : Value → Value → Except Failure Bool) : Prop :=
  ∀ ⦃a b answer⦄, test a b = .ok answer → finer a b = .ok answer

def Passes (test : Value → Value → Except Failure Bool) (a b : Value) : Prop := test a b = .ok true

section
variable {test finer : Value → Value → Except Failure Bool} {answer : Bool}

theorem ok_of_ite_bind {action : Except Failure Bool} {next : Except Failure Bool}
    (run : (do if ← action then next else return false) = .ok answer) :
    action = .ok true ∧ next = .ok answer ∨ action = .ok false ∧ answer = false := by
  cases action with
  | error failure => cases run
  | ok passed =>
      cases passed
      · exact .inr ⟨rfl, (Except.ok.inj run).symm⟩
      · exact .inl ⟨rfl, run⟩

theorem allPairs_eq_true {as bs : List Value} (same : as.length = bs.length) :
    allPairs test as bs = .ok true ↔ List.Forall₂ (Passes test) as bs := by
  induction as generalizing bs with
  | nil =>
      obtain rfl := List.length_eq_zero_iff.mp same.symm
      exact ⟨fun _ => .nil, fun _ => rfl⟩
  | cons a as ih =>
      obtain ⟨b, bs, rfl⟩ := List.exists_cons_of_length_eq_add_one same.symm
      rw [List.forall₂_cons, ← ih (Nat.succ.inj same), allPairs]
      constructor
      · intro run
        rcases ok_of_ite_bind run with passed | ⟨-, wrong⟩
        · exact passed
        · cases wrong
      · rintro ⟨first, rest⟩
        rw [first]
        exact rest

theorem equalRows_eq_true {as bs : List Value} :
    equalRows test as bs = .ok true ↔ List.Forall₂ (Passes test) as bs := by
  unfold equalRows
  split
  case isTrue same => exact allPairs_eq_true same
  case isFalse other => exact ⟨nofun, fun each => absurd each.length_eq other⟩

theorem allEntries_eq_true {other : Entries} {entries : List (Value × Value)} :
    allEntries test other entries = .ok true ↔
      ∀ entry ∈ entries, ∃ found, other.get? entry.1 = some found ∧ Passes test found entry.2 := by
  induction entries with
  | nil => exact ⟨fun _ => nofun, fun _ => rfl⟩
  | cons entry rest ih =>
      rw [List.forall_mem_cons, ← ih, allEntries]
      cases found : other.get? entry.1 with
      | none => simp
      | some value =>
          constructor
          · intro run
            rcases ok_of_ite_bind run with ⟨passed, rest⟩ | ⟨-, wrong⟩
            · exact ⟨⟨value, rfl, passed⟩, rest⟩
            · cases wrong
          · rintro ⟨⟨same, is, passed⟩, rest⟩
            cases is
            show (do if ← test value entry.2 then _ else return false) = _
            rw [passed]
            exact rest

theorem equalMaps_eq_true {entries others : Entries} :
    equalMaps test entries others = .ok true ↔ entries.size = others.size ∧
      ∀ entry ∈ entries.toList, ∃ found,
        others.get? entry.1 = some found ∧ Passes test found entry.2 := by
  unfold equalMaps
  split
  case isTrue same => rw [allEntries_eq_true, and_iff_right same]
  case isFalse other => exact ⟨nofun, fun both => absurd both.1 other⟩

theorem allPairs_refines (refines : Refines test finer) {as bs : List Value}
    (run : allPairs test as bs = .ok answer) : allPairs finer as bs = .ok answer := by
  induction as generalizing bs with
  | nil => exact run
  | cons a as ih =>
      cases bs with
      | nil => exact run
      | cons b bs =>
          rw [allPairs] at run ⊢
          rcases ok_of_ite_bind run with ⟨passed, rest⟩ | ⟨failed, rfl⟩
          · rw [refines passed]
            exact ih rest
          · rw [refines failed]
            rfl

theorem equalRows_refines (refines : Refines test finer) {as bs : List Value}
    (run : equalRows test as bs = .ok answer) : equalRows finer as bs = .ok answer := by
  unfold equalRows at run ⊢
  split
  case isTrue same => exact allPairs_refines refines (by rwa [if_pos same] at run)
  case isFalse other => rwa [if_neg other] at run

theorem allEntries_refines (refines : Refines test finer) {other : Entries}
    {entries : List (Value × Value)} (run : allEntries test other entries = .ok answer) :
    allEntries finer other entries = .ok answer := by
  induction entries with
  | nil => exact run
  | cons entry rest ih =>
      rw [allEntries] at run ⊢
      cases found : other.get? entry.1 with
      | none => rwa [found] at run
      | some value =>
          rw [found] at run
          show (do if ← finer value entry.2 then _ else return false) = _
          rcases ok_of_ite_bind run with ⟨passed, rest⟩ | ⟨failed, rfl⟩
          · rw [refines passed]
            exact ih rest
          · rw [refines failed]
            rfl

theorem equalMaps_refines (refines : Refines test finer) {entries others : Entries}
    (run : equalMaps test entries others = .ok answer) :
    equalMaps finer entries others = .ok answer := by
  unfold equalMaps at run ⊢
  split
  case isTrue same => exact allEntries_refines refines (by rwa [if_pos same] at run)
  case isFalse other => rwa [if_neg other] at run

end

variable (store : Store)

def elementWithin (depth : Nat) (a b : Value) : Except Failure Bool :=
  if a.sameKey b then .ok true else store.equalWithin depth a b

theorem equalWithin_array (depth ref other : Nat) :
    store.equalWithin (depth + 1) (.array ref) (.array other) =
      equalRows (store.elementWithin depth) (store.array ref).toList (store.array other).toList :=
  rfl

theorem equalWithin_map (depth ref other : Nat) :
    store.equalWithin (depth + 1) (.map ref) (.map other) =
      equalMaps (store.elementWithin depth) (store.map ref) (store.map other) := rfl

theorem elementWithin_refines {depth : Nat}
    (refines : Refines (store.equalWithin depth) (store.equalWithin (depth + 1))) :
    Refines (store.elementWithin depth) (store.elementWithin (depth + 1)) := by
  intro a b answer run
  unfold elementWithin at run ⊢
  split
  case isTrue same => rwa [if_pos same] at run
  case isFalse other => exact refines (by rwa [if_neg other] at run)

/-- What is answered within some depth is answered within more. -/
theorem equalWithin_refines (depth : Nat) :
    Refines (store.equalWithin depth) (store.equalWithin (depth + 1)) := by
  induction depth with
  | zero => exact nofun
  | succ depth ih =>
      have finer := store.elementWithin_refines ih
      intro a b answer run
      unfold equalWithin at run ⊢
      dsimp only at run ⊢
      split
      · exact equalRows_refines finer run
      · exact equalRows_refines finer run
      · exact equalMaps_refines finer run
      · exact run
      · simpa using run

end ShellLisp.Store
