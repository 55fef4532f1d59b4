import Mathlib.Logic.Relation
import ShellLisp.Proofs.Scoping.Frames
import ShellLisp.Proofs.Sequences.Ranges
import ShellLisp.Session.Definitions

/-!
# The changes that evaluations make

One step is one change that a single action can make to a session; an evaluation makes a row of them.
Names and map entries may be reserved: then no step binds or removes such a name in a module scope,
and none writes such an entry. Ranges may be guarded: then all that a step does to one is to pull
elements from it, or to finish it when it is spent. What every step keeps, every evaluation keeps.
-/

namespace ShellLisp

/-- Names and map entries that evaluations are to leave as they are. -/
structure Reserved where
  name : String → Bool
  entry : Nat → Value → Bool

def Reserved.nothing : Reserved := ⟨fun _ => false, fun _ _ => false⟩

/-- What is reserved, and ranges that are followed through the evaluations. -/
structure Guarded extends Reserved where
  range : Nat → Prop

def Reserved.guarded (reserved : Reserved) : Guarded := { reserved with range := fun _ => False }

instance : Coe Reserved Guarded := ⟨Reserved.guarded⟩

/-- A change of what the values with an identity are. -/
inductive Store.Change (reserved : Guarded) (store : Store) : Store → Prop
  | newArray (items : Array Value) : Change reserved store (store.newArray items).2
  | newMap (entries : Entries) : Change reserved store (store.newMap entries).2
  | newClosure (closure : Closure) : Change reserved store (store.newClosure closure).2
  | newBound (method : BoundMethod) : Change reserved store (store.newBound method).2
  | newSequence (label : String) (state : SequenceState) :
      Change reserved store (store.newSequence label state).2
  | modifyArray (ref : Nat) (change : Array Value → Array Value) :
      Change reserved store (store.modifyArray ref change)
  | putKey {ref : Nat} {key : Value} (free : reserved.entry ref key = false) (value : Value) :
      Change reserved store (store.putKey ref key value)
  | putAttribute (ref : Nat) (name : String) (value : Value) :
      Change reserved store (store.putAttribute ref name value)
  | putHostAttribute (function : HostFunction) (name : String) (value : Value) :
      Change reserved store (store.putHostAttribute function name value)
  | renameLibrary (ref : Nat) (name : Value) : Change reserved store (store.renameLibrary ref name)
  | renameForm (ref : Nat) (name : Value) : Change reserved store (store.renameForm ref name)
  | modifyClosure (ref : Nat) (change : Closure → Closure) :
      Change reserved store (store.modifyClosure ref change)
  | modifyBound (ref : Nat) (change : BoundMethod → BoundMethod) :
      Change reserved store (store.modifyBound ref change)
  | modifySequence {ref : Nat} {change : LazySequence → LazySequence}
      (steps : reserved.range ref → ∀ sequence, store.sequences[ref]? = some sequence →
        sequence.Steps (change sequence)) :
      Change reserved store (store.modifySequence ref change)

theorem Store.Change.scopes {reserved : Guarded} {store after : Store}
    (changed : store.Change reserved after) : after.scopes = store.scopes := by
  cases changed <;> rfl

theorem Store.Change.range {reserved : Guarded} {store after : Store} {ref : Nat}
    {sequence : LazySequence} (changed : store.Change reserved after)
    (guarded : reserved.range ref) (there : store.sequences[ref]? = some sequence) :
    ∃ now, after.sequences[ref]? = some now ∧ sequence.Steps now := by
  cases changed with
  | newSequence label state =>
      have older : ref < store.sequences.size := (Array.getElem?_eq_some_iff.mp there).1
      refine ⟨sequence, ?_, .refl sequence⟩
      show (store.sequences.push _)[ref]? = some sequence
      rw [Array.getElem?_push, if_neg (Nat.ne_of_lt older), there]
  | @modifySequence other change steps =>
      by_cases same : other = ref
      · subst same
        exact ⟨change sequence, by simp [Store.modifySequence, Array.getElem?_modify, there],
          steps guarded sequence there⟩
      · exact ⟨sequence, by simp [Store.modifySequence, Array.getElem?_modify, same, there],
          .refl sequence⟩
  | _ => exact ⟨sequence, there, .refl sequence⟩

namespace Session

/-- One change of a session. A name is bound either in a scope that is no module scope, or in the
module scope of some scope. -/
inductive Change (reserved : Guarded) (session : Session) : Session → Prop
  | outside (files : FileTree) (directory : Path) (events : Array Event) (running : Bool) :
      Change reserved session { session with files, directory, events, running }
  | store {after : Store} (changed : session.store.Change reserved after) :
      Change reserved session { session with store := after }
  | newScope (parent : Nat) :
      Change reserved session { session with store := (session.store.newScope parent).2 }
  | bindLocal {scope : Nat} (apart : session.store.scopes.module? scope ≠ some scope)
      (name : String) (value : Value) :
      Change reserved session { session with store := session.store.define scope name value }
  | define {scope module : Nat} {name : String}
      (link : session.store.scopes.module? scope = some module)
      (free : reserved.name name = false) (value : Value) :
      Change reserved session { session with store := session.store.define module name value }
  | delete {name : String} (free : reserved.name name = false) (scope : Nat) :
      Change reserved session
        { session with
          store := { session.store with scopes := (session.store.scopes.delete scope name).2 } }
  | clearResults : Change reserved session session.clearResults
  | clearDefinitions : Change reserved session session.clearDefinitions

def Changes (reserved : Guarded) : Session → Session → Prop :=
  Relation.ReflTransGen (Change reserved)

theorem Changes.ofStore {reserved : Guarded} {session : Session} {after : Store}
    (changes : Relation.ReflTransGen (Store.Change reserved) session.store after) :
    Changes reserved session { session with store := after } := by
  induction changes with
  | refl => exact .refl
  | tail _ changed ih => exact ih.tail (.store changed)

/-! ## Links to module scopes -/

structure IsInner (session : Session) (scope : Nat) : Prop where
  present : scope < session.store.scopes.next
  apart : session.store.scopes.module? scope ≠ some scope

/-- Scopes have module scopes that are there, and the scope of definitions is its own. -/
structure Linked (session : Session) : Prop where
  present : ∀ {scope module : Nat}, session.store.scopes.module? scope = some module →
    module < session.store.scopes.next
  own : session.store.scopes.module? session.module = some session.module

structure KeepsLinks (before after : Session) : Prop where
  older : before.store.scopes.next ≤ after.store.scopes.next
  module : ∀ scope, scope < before.store.scopes.next →
    after.store.scopes.module? scope = before.store.scopes.module? scope

variable {reserved : Guarded} {session before after : Session}

theorem KeepsLinks.of_scopes (next : after.store.scopes.next = before.store.scopes.next)
    (module : after.store.scopes.module? = before.store.scopes.module?) :
    KeepsLinks before after :=
  ⟨Nat.le_of_eq next.symm, fun scope _ => congrFun module scope⟩

theorem KeepsLinks.trans {last : Session} (first : KeepsLinks before after)
    (second : KeepsLinks after last) : KeepsLinks before last where
  older := Nat.le_trans first.older second.older
  module scope there :=
    (second.module scope (Nat.lt_of_lt_of_le there first.older)).trans (first.module scope there)

theorem IsInner.keeps {scope : Nat} (isInner : before.IsInner scope)
    (keeps : KeepsLinks before after) : after.IsInner scope where
  present := Nat.lt_of_lt_of_le isInner.present keeps.older
  apart := by rw [keeps.module scope isInner.present]; exact isInner.apart

theorem Linked.present_module (linked : session.Linked) :
    session.module < session.store.scopes.next := linked.present linked.own

theorem Linked.same (linked : before.Linked)
    (next : after.store.scopes.next = before.store.scopes.next)
    (module : after.store.scopes.module? = before.store.scopes.module?)
    (own : after.module = before.module) : after.Linked where
  present link := by rw [next]; exact linked.present ((congrFun module _).symm.trans link)
  own := by rw [own, module]; exact linked.own

theorem Linked.newScope (linked : session.Linked) (parent : Nat) :
    let after := { session with store := (session.store.newScope parent).2 }
    after.Linked ∧ after.IsInner session.store.scopes.next ∧ KeepsLinks session after := by
  have next : (session.store.scopes.pushChild parent).next = session.store.scopes.next + 1 :=
    Scopes.next_push ..
  have links := @Scopes.module?_push Value session.store.scopes (some parent) none
  refine ⟨⟨fun {scope module} link => ?_, ?_⟩, ⟨?_, fun same => ?_⟩, ⟨?_, fun scope there => ?_⟩⟩
  · change _ < (session.store.scopes.pushChild parent).next
    change (session.store.scopes.push (some parent) none).module? scope = some module at link
    rw [next]
    rw [links] at link
    split at link
    · exact Nat.lt_succ_of_lt (linked.present link)
    · exact Nat.lt_succ_of_lt (linked.present link)
  · change (session.store.scopes.push (some parent) none).module? session.module = _
    rw [links, if_neg (Nat.ne_of_lt linked.present_module)]
    exact linked.own
  · exact next ▸ Nat.lt_succ_self _
  · change (session.store.scopes.push (some parent) none).module? session.store.scopes.next = _
      at same
    rw [links, if_pos rfl] at same
    exact Nat.lt_irrefl _ (linked.present same)
  · exact next ▸ Nat.le_succ _
  · change (session.store.scopes.push (some parent) none).module? scope = _
    rw [links, if_neg (Nat.ne_of_lt there)]

theorem Linked.clear (linked : session.Linked) :
    session.clear.Linked ∧ KeepsLinks session session.clear := by
  have next : (session.store.scopes.pushModule (some session.core)).next =
      session.store.scopes.next + 1 := Scopes.next_push ..
  have links := @Scopes.module?_push Value session.store.scopes (some session.core)
    (some session.store.scopes.next)
  refine ⟨⟨fun {scope module} link => ?_, ?_⟩, ⟨next ▸ Nat.le_succ _, fun scope there => ?_⟩⟩
  · change _ < (session.store.scopes.pushModule (some session.core)).next
    change (session.store.scopes.push (some session.core) _).module? scope = some module at link
    rw [next]
    rw [links] at link
    split at link
    · cases link
      exact Nat.lt_succ_self _
    · exact Nat.lt_succ_of_lt (linked.present link)
  · exact (links _).trans (if_pos rfl)
  · exact (links _).trans (if_neg (Nat.ne_of_lt there))

theorem defineLibrary_links (session : Session) (name : String) (function : LibraryFunction) :
    (session.defineLibrary name function).module = session.module ∧
      (session.defineLibrary name function).store.scopes.next = session.store.scopes.next ∧
      (session.defineLibrary name function).store.scopes.module? = session.store.scopes.module? :=
  ⟨rfl, Scopes.next_modify _ _, funext fun scope => Scopes.module?_modify _ _ scope⟩

theorem installCommands_links (session : Session) :
    session.installCommands.module = session.module ∧
      session.installCommands.store.scopes.next = session.store.scopes.next ∧
      session.installCommands.store.scopes.module? = session.store.scopes.module? := by
  unfold installCommands
  induction sessionCommands generalizing session with
  | nil => exact ⟨rfl, rfl, rfl⟩
  | cons entry rest ih =>
      obtain ⟨module, next, links⟩ := defineLibrary_links session entry.1 (.session entry.2)
      obtain ⟨module', next', links'⟩ := ih (session.defineLibrary entry.1 (.session entry.2))
      exact ⟨module'.trans module, next'.trans next, links'.trans links⟩

theorem Linked.installCommands (linked : session.Linked) : session.installCommands.Linked :=
  have ⟨module, next, links⟩ := installCommands_links session
  linked.same next links module

theorem Linked.change (linked : before.Linked) (changed : before.Change reserved after) :
    after.Linked ∧ KeepsLinks before after := by
  -- Bindings come and go without any link between scopes being changed.
  have modified (scope : Nat) (step : Bindings Value → Bindings Value) :
      (before.store.scopes.modify scope step).next = before.store.scopes.next ∧
        (before.store.scopes.modify scope step).module? = before.store.scopes.module? :=
    ⟨Scopes.next_modify _ _, funext fun other => Scopes.module?_modify _ _ other⟩
  cases changed with
  | outside => exact ⟨⟨linked.present, linked.own⟩, .of_scopes rfl rfl⟩
  | store changed =>
      have same := changed.scopes
      exact ⟨linked.same (congrArg Scopes.next same) (congrArg Scopes.module? same) rfl,
        .of_scopes (congrArg Scopes.next same) (congrArg Scopes.module? same)⟩
  | newScope parent =>
      obtain ⟨stays, -, keeps⟩ := linked.newScope parent
      exact ⟨stays, keeps⟩
  | bindLocal =>
      obtain ⟨next, links⟩ := modified _ _
      exact ⟨linked.same next links rfl, .of_scopes next links⟩
  | define =>
      obtain ⟨next, links⟩ := modified _ _
      exact ⟨linked.same next links rfl, .of_scopes next links⟩
  | @delete name _ scope =>
      have ⟨next, links⟩ : (before.store.scopes.delete scope name).2.next =
            before.store.scopes.next ∧
          (before.store.scopes.delete scope name).2.module? = before.store.scopes.module? := by
        rcases Scopes.delete_eq before.store.scopes scope name with same | ⟨holder, -, same⟩
        · rw [same]
          exact ⟨rfl, rfl⟩
        · rw [same]
          exact modified holder _
      exact ⟨linked.same next links rfl, .of_scopes next links⟩
  | clearResults =>
      obtain ⟨next, links⟩ := modified _ _
      exact ⟨linked.same next links rfl, .of_scopes next links⟩
  | clearDefinitions =>
      obtain ⟨stays, keeps⟩ := linked.clear
      have started : Linked { before.clear with results := 0 } := ⟨stays.present, stays.own⟩
      obtain ⟨-, next, links⟩ := installCommands_links { before.clear with results := 0 }
      exact ⟨started.installCommands, keeps.trans (.of_scopes next links)⟩

theorem Linked.changes (linked : before.Linked) (changes : Changes reserved before after) :
    after.Linked ∧ KeepsLinks before after := by
  induction changes with
  | refl => exact ⟨linked, .of_scopes rfl rfl⟩
  | tail _ changed ih =>
      obtain ⟨stays, keeps⟩ := ih
      obtain ⟨last, further⟩ := stays.change changed
      exact ⟨last, keeps.trans further⟩

/-! ## Guarded ranges -/

theorem sequences_installCommands (session : Session) :
    session.installCommands.store.sequences = session.store.sequences := by
  unfold installCommands
  induction sessionCommands generalizing session with
  | nil => rfl
  | cons entry rest ih => exact ih (session.defineLibrary entry.1 (.session entry.2))

variable {ref : Nat} {sequence : LazySequence}

theorem Change.range (changed : before.Change reserved after) (guarded : reserved.range ref)
    (there : before.store.sequences[ref]? = some sequence) :
    ∃ now, after.store.sequences[ref]? = some now ∧ sequence.Steps now := by
  cases changed with
  | store changed => exact changed.range guarded there
  | clearDefinitions =>
      have same := sequences_installCommands { before.clear with results := 0 }
      exact ⟨sequence, by rw [Session.clearDefinitions, same]; exact there, .refl sequence⟩
  | _ => exact ⟨sequence, there, .refl sequence⟩

/-- A guarded range gives elements, and that is all that happens to it. -/
theorem Changes.range (changes : Changes reserved before after) (guarded : reserved.range ref)
    (there : before.store.sequences[ref]? = some sequence) :
    ∃ now, after.store.sequences[ref]? = some now ∧ sequence.Steps now := by
  induction changes with
  | refl => exact ⟨sequence, there, .refl sequence⟩
  | tail _ changed ih =>
      obtain ⟨between, found, steps⟩ := ih
      obtain ⟨now, found, further⟩ := changed.range guarded found
      exact ⟨now, found, steps.trans further⟩

structure Ready (reserved : Guarded) (session : Session) : Prop where
  linked : session.Linked
  ranges : ∀ ref, reserved.range ref →
    ∃ sequence, session.store.sequences[ref]? = some sequence ∧ sequence.IsRange

theorem Linked.ready {reserved : Reserved} (linked : session.Linked) :
    session.Ready reserved := ⟨linked, fun _ => False.elim⟩

theorem Ready.changes (ready : before.Ready reserved) (changes : Changes reserved before after) :
    after.Ready reserved ∧ KeepsLinks before after := by
  obtain ⟨linked, keeps⟩ := ready.linked.changes changes
  refine ⟨⟨linked, fun ref guarded => ?_⟩, keeps⟩
  obtain ⟨sequence, there, isRange⟩ := ready.ranges ref guarded
  obtain ⟨now, found, steps⟩ := changes.range guarded there
  exact ⟨now, found, steps.isRange isRange⟩

end Session

end ShellLisp
