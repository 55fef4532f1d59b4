import Mathlib.Data.Set.Basic
import ShellLisp.Proofs.Sequences.Ranges

/-!
# Sessions that grow

An evaluation without side effects makes new things and leaves those that there were as they are. A
lazy sequence that is asked for elements changes meanwhile, so a session grows up to some sequences.
-/

namespace ShellLisp

def Prolongs {α : Type} (before after : Array α) : Prop :=
  ∀ (i : Nat) (a : α), before[i]? = some a → after[i]? = some a

namespace Prolongs
variable {α : Type} {first second third : Array α}

theorem refl (row : Array α) : Prolongs row row := fun _ _ found => found

theorem trans (earlier : Prolongs first second) (later : Prolongs second third) :
    Prolongs first third := fun i a found => later i a (earlier i a found)

theorem push (row : Array α) (a : α) : Prolongs row (row.push a) := by
  intro i b found
  have older : i < row.size := (Array.getElem?_eq_some_iff.mp found).1
  rw [Array.getElem?_push, if_neg (Nat.ne_of_lt older), found]

end Prolongs

/-- Everything there was is as it was, apart from some sequences. -/
structure Store.Grows (changing : Set Nat) (before after : Store) : Prop where
  arrays : Prolongs before.arrays after.arrays
  maps : Prolongs before.maps after.maps
  libraries : Prolongs before.libraries after.libraries
  forms : Prolongs before.forms after.forms
  closures : Prolongs before.closures after.closures
  bounds : Prolongs before.bounds after.bounds
  objects : Prolongs before.objects after.objects
  hosts : after.hosts = before.hosts
  frames : Prolongs before.scopes.frames after.scopes.frames
  more : before.sequences.size ≤ after.sequences.size
  sequences : ∀ ref found, ref ∉ changing → before.sequences[ref]? = some found →
    after.sequences[ref]? = some found

namespace Store.Grows
variable {changing other : Set Nat} {before between after : Store}

theorem refl (changing : Set Nat) (store : Store) : store.Grows changing store where
  arrays := .refl _
  maps := .refl _
  libraries := .refl _
  forms := .refl _
  closures := .refl _
  bounds := .refl _
  objects := .refl _
  hosts := rfl
  frames := .refl _
  more := Nat.le_refl _
  sequences _ _ _ found := found

theorem trans (earlier : before.Grows changing between) (later : between.Grows other after)
    (inside : ∀ ref < before.sequences.size, ref ∈ other → ref ∈ changing) :
    before.Grows changing after where
  arrays := earlier.arrays.trans later.arrays
  maps := earlier.maps.trans later.maps
  libraries := earlier.libraries.trans later.libraries
  forms := earlier.forms.trans later.forms
  closures := earlier.closures.trans later.closures
  bounds := earlier.bounds.trans later.bounds
  objects := earlier.objects.trans later.objects
  hosts := later.hosts.trans earlier.hosts
  frames := earlier.frames.trans later.frames
  more := Nat.le_trans earlier.more later.more
  sequences ref found kept there :=
    have older : ref < before.sequences.size := (Array.getElem?_eq_some_iff.mp there).1
    later.sequences ref found (fun changed => kept (inside ref older changed))
      (earlier.sequences ref found kept there)

theorem mono (grows : before.Grows changing after)
    (inside : ∀ ref < before.sequences.size, ref ∈ changing → ref ∈ other) :
    before.Grows other after :=
  (refl other before).trans grows inside

theorem newArray (store : Store) (items : Array Value) : store.Grows ∅ (store.newArray items).2 :=
  { refl ∅ store with arrays := .push _ _ }

theorem newSequence (store : Store) (label : String) (state : SequenceState) :
    store.Grows ∅ (store.newSequence label state).2 :=
  { refl ∅ store with
    more := by simp [Store.newSequence]
    sequences := fun ref found _ there => Prolongs.push _ _ ref found there }

theorem modifySequence (store : Store) (ref : Nat) (change : LazySequence → LazySequence) :
    store.Grows {ref} (store.modifySequence ref change) :=
  { refl {ref} store with
    more := by simp [Store.modifySequence]
    sequences := fun other found apart there => by
      have different : ref ≠ other := fun same => apart same.symm
      simp [Store.modifySequence, Array.getElem?_modify, different, there] }

end Store.Grows

structure Session.Grows (changing : Set Nat) (before after : Session) : Prop where
  store : before.store.Grows changing after.store
  rest : after = { before with store := after.store }

/-- A session that has come from another one by growing and by asking sequences. -/
abbrev Session.Extends (before after : Session) : Prop := before.Grows Set.univ after

namespace Session.Grows
variable {changing other : Set Nat} {before between after : Session}

theorem refl (changing : Set Nat) (session : Session) : session.Grows changing session :=
  ⟨.refl changing session.store, rfl⟩

theorem trans (earlier : before.Grows changing between) (later : between.Grows other after)
    (inside : ∀ ref < before.store.sequences.size, ref ∈ other → ref ∈ changing) :
    before.Grows changing after :=
  ⟨earlier.store.trans later.store inside, by rw [later.rest, earlier.rest]⟩

theorem mono (grows : before.Grows changing after)
    (inside : ∀ ref < before.store.sequences.size, ref ∈ changing → ref ∈ other) :
    before.Grows other after :=
  ⟨grows.store.mono inside, grows.rest⟩

theorem weaken (grows : before.Grows changing after) (inside : changing ⊆ other) :
    before.Grows other after := grows.mono fun _ _ member => inside member

theorem extension (grows : before.Grows changing after) : before.Extends after :=
  grows.weaken (Set.subset_univ changing)

theorem andThen (earlier : before.Grows changing between) (later : between.Grows ∅ after) :
    before.Grows changing after := earlier.trans later fun _ _ => False.elim

theorem onStore {store : Store} (grows : before.store.Grows changing store) :
    before.Grows changing { before with store } := ⟨grows, rfl⟩

/-- What goes on to change only sequences that may change, or that are new, changes no others. -/
theorem onward (earlier : before.Grows changing between)
    (fresh : ∀ ref ∈ other, ref ∈ changing ∨ before.store.sequences.size ≤ ref)
    (later : between.Grows other after) : before.Grows changing after :=
  earlier.trans later fun ref older member =>
    (fresh ref member).resolve_right (Nat.not_le.mpr older)

theorem fresh_onward {owned last : Set Nat} (earlier : before.Grows changing between)
    (fresh : ∀ ref ∈ other, ref ∈ owned ∨ before.store.sequences.size ≤ ref)
    (fresh' : ∀ ref ∈ last, ref ∈ other ∨ between.store.sequences.size ≤ ref) :
    ∀ ref ∈ last, ref ∈ owned ∨ before.store.sequences.size ≤ ref := by
  intro ref member
  rcases fresh' ref member with owns | new
  · exact fresh ref owns
  · exact .inr (Nat.le_trans earlier.store.more new)

end Session.Grows

theorem Session.Extends.trans {before between after : Session} {changing : Set Nat}
    (earlier : before.Extends between) (later : between.Grows changing after) :
    before.Extends after := Session.Grows.trans earlier later fun _ _ _ => trivial

theorem Eval.newArray_grows (session : Session) (items : Array Value) :
    ∃ ref after, (Eval.newArray items).runOn session = (.ok (.array ref), after) ∧
      after.store.arrays[ref]? = some items ∧ session.Grows ∅ after :=
  ⟨session.store.arrays.size, _, rfl, by simp,
    .onStore (.newArray session.store items)⟩

theorem Eval.newSequence_grows (session : Session) (label : String) (state : SequenceState) :
    ∃ after, (Eval.newSequence label state).runOn session =
        (.ok (.sequence session.store.sequences.size), after) ∧
      after.store.sequences[session.store.sequences.size]? =
        some ⟨.string label, state, false⟩ ∧
      session.Grows ∅ after :=
  ⟨_, rfl, by simp, .onStore (.newSequence session.store label state)⟩

end ShellLisp
