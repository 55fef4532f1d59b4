import ShellLisp.Evaluation.Followed
import ShellLisp.Proofs.Changes.Evaluation
import ShellLisp.Proofs.Splicing.Twins

/-!
# What is left of the library

Evaluations that are followed leave every name of the library with its value, every function and form
with what it does, and every entry of a map in its place. But the maps of the library are maps like all others: an
entry that a program writes is not what it was, and clearing the session, which makes a new module
scope, does not bring it back.
-/

namespace ShellLisp

/-! ## Writing an entry -/

theorem Value.sameKey_string {key : Value} {name : String} :
    key.sameKey (.string name) = true ↔ key = .string name := by
  cases key <;> simp [sameKey]

theorem Value.string_sameKey {key : Value} {name : String} :
    (string name).sameKey key = true ↔ key = .string name := by
  cases key with
  | string other => simpa [sameKey] using eq_comm
  | _ => simp [sameKey]

theorem find?_modify_missed {α : Type} {p : α → Bool} {change : α → α} {items : List α}
    {position : Nat} (missed : ∀ item, items[position]? = some item →
      p item = false ∧ p (change item) = false) :
    (items.modify position change).find? p = items.find? p := by
  induction items generalizing position with
  | nil => rw [List.modify_nil]
  | cons first rest ih =>
      cases position with
      | zero =>
          obtain ⟨before, after⟩ := missed first rfl
          rw [List.modify_zero_cons, List.find?_cons, List.find?_cons, before, after]
      | succ position =>
          rw [List.modify_succ_cons, List.find?_cons, List.find?_cons,
            ih fun item there => missed item there]

namespace Entries

def keys (entries : Entries) : List Value := entries.toList.map (·.1)

theorem keys_put (entries : Entries) (key value : Value) :
    entries.keys <+: (entries.put key value).keys := by
  unfold put keys
  cases entries.position? key with
  | none => simp
  | some position =>
      have same : ((entries.modify position fun entry => (entry.1, value)).toList.map (·.1)) =
          entries.toList.map (·.1) := by
        refine List.ext_getElem? fun index => ?_
        simp only [List.getElem?_map, Array.getElem?_toList, Array.getElem?_modify]
        split
        · cases entries[index]? <;> rfl
        · rfl
      rw [same]

theorem get?_put_apart {entries : Entries} {key : Value} {name : String}
    (apart : key ≠ .string name) (value : Value) :
    (entries.put key value).get? (.string name) = entries.get? (.string name) := by
  unfold put get?
  cases found : entries.position? key with
  | none =>
      have missed : key.sameKey (.string name) = false := by
        simpa using fun same => apart (Value.sameKey_string.mp same)
      simp [Array.find?_push, missed]
  | some position =>
      obtain ⟨there, same⟩ : ∃ there : position < entries.size,
          entries[position].1.sameKey key = true := by
        obtain ⟨there, same, -⟩ := Array.findIdx?_eq_some_iff_getElem.mp found
        exact ⟨there, same⟩
      have missed : entries[position].1.sameKey (.string name) = false := by
        refine Bool.eq_false_iff.mpr fun hit => apart ?_
        rw [Value.sameKey_string.mp hit, Value.string_sameKey] at same
        exact same
      dsimp only
      rw [← Array.find?_toList, ← Array.find?_toList, Array.toList_modify,
        find?_modify_missed fun entry at_ => ?_]
      rw [Array.getElem?_toList, Array.getElem?_eq_getElem there] at at_
      cases at_
      exact ⟨missed, missed⟩

end Entries

namespace Store

def formAt? (store : Store) (ref : Nat) : Option SpecialForm := store.forms[ref]?.map (·.form)

/-- What a store keeps of an older one: what its functions and forms do, the keys of its maps, and
the entries that are reserved. -/
structure Keeps (reserved : Reserved) (before after : Store) : Prop where
  functions : before.KeepsFunctions after
  forms : ∀ ref form, before.formAt? ref = some form → after.formAt? ref = some form
  maps : before.maps.size ≤ after.maps.size
  keys : ∀ ref, ref < before.maps.size → (before.map ref).keys <+: (after.map ref).keys
  entries : ∀ ref name, ref < before.maps.size → reserved.entry ref (.string name) = true →
    (after.map ref).get? (.string name) = (before.map ref).get? (.string name)

namespace Keeps
variable {reserved : Reserved} {before between after : Store}

theorem refl (store : Store) : store.Keeps reserved store where
  functions := .refl store
  forms _ _ found := found
  maps := Nat.le_refl _
  keys _ _ := List.prefix_rfl
  entries _ _ _ _ := rfl

theorem trans (earlier : before.Keeps reserved between) (later : between.Keeps reserved after) :
    before.Keeps reserved after where
  functions := earlier.functions.trans later.functions
  forms ref form found := later.forms ref form (earlier.forms ref form found)
  maps := Nat.le_trans earlier.maps later.maps
  keys ref there :=
    (earlier.keys ref there).trans (later.keys ref (Nat.lt_of_lt_of_le there earlier.maps))
  entries ref name there free :=
    (later.entries ref name (Nat.lt_of_lt_of_le there earlier.maps) free).trans
      (earlier.entries ref name there free)

theorem of_same (functions : before.KeepsFunctions after) (forms : after.forms = before.forms)
    (maps : after.maps = before.maps) : before.Keeps reserved after where
  functions := functions
  forms ref form found := by rw [formAt?, forms]; exact found
  maps := Nat.le_of_eq (congrArg Array.size maps.symm)
  keys ref _ := by rw [map, map, maps]
  entries ref name _ _ := by rw [map, map, maps]

theorem withScopes (store : Store) (scopes : Scopes Value) :
    store.Keeps reserved (store.withScopes scopes) := .of_same (.refl store) rfl rfl

end Keeps

theorem map_newMap_older {store : Store} {ref : Nat} (older : ref < store.maps.size)
    (entries : Entries) : (store.newMap entries).2.map ref = store.map ref := by
  simp [newMap, map, Array.getElem?_push, Nat.ne_of_lt older]

theorem map_putKey (store : Store) (ref : Nat) (key value : Value) {other : Nat}
    (there : other < store.maps.size) :
    (store.putKey ref key value).map other =
      if ref = other then (store.map other).put key value else store.map other := by
  simp only [putKey, map, Array.getElem?_modify, Array.getElem?_eq_getElem there]
  split <;> rfl

theorem putKey_keeps {reserved : Reserved} {store : Store} {ref : Nat} {key : Value}
    (free : reserved.entry ref key = false) (value : Value) :
    store.Keeps reserved (store.putKey ref key value) where
  functions := .refl store
  forms _ _ found := found
  maps := Nat.le_of_eq Array.size_modify.symm
  keys other there := by
    rw [map_putKey _ _ _ _ there]
    split
    · exact Entries.keys_put _ _ _
    · exact List.prefix_rfl
  entries other name there held := by
    rw [map_putKey _ _ _ _ there]
    split
    · rename_i same
      refine Entries.get?_put_apart ?_ value
      rintro rfl
      rw [same, held] at free
      cases free
    · rfl

theorem Change.keeps {reserved : Reserved} {store after : Store}
    (changed : store.Change reserved after) : store.Keeps reserved after := by
  cases changed with
  | newArray | newClosure | newBound | newSequence | modifyArray | putAttribute | putHostAttribute
  | modifyClosure | modifyBound | modifySequence => exact .of_same (.refl store) rfl rfl
  | renameLibrary ref name =>
      refine .of_same (fun other function found => ?_) rfl rfl
      simp only [functionAt?, Store.renameLibrary, Array.getElem?_modify] at found ⊢
      split <;> simpa [Option.map_map, Function.comp_def] using found
  | renameForm ref name =>
      refine { Keeps.refl store with forms := fun other form found => ?_ }
      simp only [formAt?, Store.renameForm, Array.getElem?_modify] at found ⊢
      split <;> simpa [Option.map_map, Function.comp_def] using found
  | newMap entries =>
      exact
        { functions := .refl store
          forms := fun _ _ found => found
          maps := by simp [Store.newMap]
          keys := fun ref there => by rw [map_newMap_older there]
          entries := fun ref name there _ => by rw [map_newMap_older there] }
  | putKey free value => exact putKey_keeps free value

end Store

namespace Session
variable {reserved : Reserved} {session before after : Session}

theorem installCommands_keeps (session : Session) :
    session.store.Keeps reserved session.installCommands.store := by
  unfold installCommands
  induction sessionCommands generalizing session with
  | nil => exact .refl session.store
  | cons entry rest ih =>
      have defined : session.store.Keeps reserved
          (session.defineLibrary entry.1 (.session entry.2)).store :=
        .of_same (.newLibrary session.store ⟨.session entry.2, .string entry.1⟩) rfl rfl
      exact defined.trans (ih _)

theorem Change.keeps (changed : before.Change reserved after) :
    before.store.Keeps reserved after.store := by
  cases changed with
  | store changed => exact changed.keeps
  | clearDefinitions =>
      have cleared : before.store.Keeps reserved before.clear.store :=
        .of_same (.refl before.store) rfl rfl
      exact cleared.trans (installCommands_keeps { before.clear with results := 0 })
  | outside | newScope | bindLocal | define | delete | clearResults =>
      exact .of_same (.refl before.store) rfl rfl

theorem Changes.keeps (changes : Changes reserved before after) :
    before.store.Keeps reserved after.store := by
  induction changes with
  | refl => exact .refl _
  | tail _ changed ih => exact ih.trans changed.keeps

/-! ## Sessions that spare what is reserved -/

/-- What a session comes to by evaluations that are followed and spare what is reserved, whether or not
they fail. -/
inductive Spared (reserved : Reserved) (first : Session) : Session → Prop
  | none : Spared reserved first first
  | evaluate {session : Session} (spared : Spared reserved first session) (source : String)
      (followed : isFollowed (session.evaluate source).1 = true)
      (spares : session.evaluateSparing reserved source = session.evaluate source) :
      Spared reserved first (session.evaluate source).2

theorem Spared.evaluate_any {first : Session} (spared : Spared .nothing first session)
    (source : String) (followed : isFollowed (session.evaluate source).1 = true) :
    Spared .nothing first (session.evaluate source).2 :=
  spared.evaluate source followed (evaluateSparing_nothing session source)

theorem Spared.reached {files : FileTree} {directory home : Path} {shell : Shell}
    (spared : Spared reserved (start files directory home shell) session) : session.Reached := by
  induction spared with
  | none => exact .start files directory home shell
  | evaluate _ source _ _ ih => exact ih.evaluate source

theorem Spared.changes {first : Session} (linked : first.Linked)
    (spared : Spared reserved first session) : Changes reserved first session := by
  induction spared with
  | none => exact .refl
  | @evaluate middle _ source _ spares ih =>
      have made := (linked.changes ih).1.evaluateSparing_changes reserved source
      rw [spares] at made
      exact ih.trans made

/-! ## The names of the library -/

theorem Reached.core_bindings (reached : session.Reached) :
    session.store.scopes.bindings session.core = libraryStore.scopes.bindings 0 := by
  induction reached with
  | start files directory home shell =>
      show (libraryStore.scopes.pushModule (some 0)).bindings 0 = _
      rw [Scopes.pushModule, Scopes.bindings_push]
  | @evaluate session reached source ih =>
      have sound := reached.sound
      have apart : (session.writing sound.nested).scope session.module := sound.nested.apart
      have confined :=
        Engine.evaluateText_confined (Engine.default_confined writing_commands) source apart
      obtain ⟨-, holds, -⟩ := confined session sound.holds
      obtain ⟨core, -, -, undisturbed⟩ := holds.scopes
      unfold Session.evaluate evaluateIn
      rw [core, undisturbed.core, ih]

theorem lookup?_of_empty {scopes : Scopes Value} {core module : Nat} (older : core < module)
    (root : scopes.parentLink core = none) (entry : scopes.parentLink module = some core)
    (empty : scopes.bindings module = []) (name : String) :
    scopes.lookup? module name = List.lookup name (scopes.bindings core) := by
  have up : scopes.parent? module = some ⟨core, older⟩ := (Scopes.parent?_eq_some older).mpr entry
  have top : scopes.parent? core = none := by
    refine Option.eq_none_iff_forall_ne_some.mpr fun parent link => ?_
    rw [Scopes.parentLink_of_parent? link] at root
    cases root
  rw [Scopes.lookup?, empty, up]
  show scopes.lookup? core name = _
  rw [Scopes.lookup?, top]
  cases List.lookup name (scopes.bindings core) <;> rfl

theorem lookup?_start (files : FileTree) (directory home : Path) (shell : Shell) (name : String) :
    (start files directory home shell).store.scopes.lookup?
        (start files directory home shell).module name =
      List.lookup name (libraryStore.scopes.bindings 0) := by
  have nested := (start_sound files directory home shell).nested
  have empty := moduleBindings_start files directory home shell
  rw [lookup?_of_empty nested.older nested.root nested.entry empty,
    (Reached.start files directory home shell).core_bindings]

theorem lookup?_clear (reached : session.Reached) (name : String) :
    session.clear.store.scopes.lookup? session.clear.module name =
      List.lookup name (libraryStore.scopes.bindings 0) := by
  have nested := reached.sound.nested
  have links := @Scopes.parentLink_push Value session.store.scopes (some session.core)
    (some session.store.scopes.next)
  have root : session.clear.store.scopes.parentLink session.core = none :=
    (links _).trans ((if_neg (Nat.ne_of_lt nested.present)).trans nested.root)
  have entry : session.clear.store.scopes.parentLink session.clear.module = some session.core :=
    (links _).trans (if_pos rfl)
  have older : session.core < session.clear.module := nested.present
  rw [lookup?_of_empty older root entry (moduleBindings_clear session), ← reached.core_bindings]
  exact congrArg (List.lookup name) (Scopes.bindings_push _ _ _)

/-- What a session has of the library of a new one: no definitions, the same names, functions and
forms, every entry in its place, and the same values where nothing else was written. -/
structure HasLibrary (reserved : Reserved) (session fresh : Session) : Prop where
  empty : session.moduleBindings = []
  names : ∀ name, session.store.scopes.lookup? session.module name =
    fresh.store.scopes.lookup? fresh.module name
  keeps : fresh.store.Keeps reserved session.store

/-- A session that is cleared after any evaluations that were followed has the library of a new one,
except for entries that were written. -/
theorem clear_hasLibrary {files : FileTree} {directory home : Path} {shell : Shell}
    (spared : Spared reserved (start files directory home shell) session) :
    session.clear.HasLibrary reserved (start files directory home shell) where
  empty := moduleBindings_clear session
  names name := (lookup?_clear spared.reached name).trans
    (lookup?_start files directory home shell name).symm
  keeps := (spared.changes (start_linked files directory home shell)).keeps.trans
    (.withScopes session.store (session.store.scopes.pushModule (some session.core)))

def libraryEntries : Reserved :=
  ⟨fun _ => false, fun ref key => ((libraryStore.map ref).get? key).isSome⟩

def overwritten : Session :=
  ((start .empty [] [] (.recorded [] [])).evaluate "(do (set $Array \"map\" 5) null)").2

/-- All but the entry that a program writes is there after clearing, and the entry too after a program
that writes none. -/
theorem clear_overwritten_hasLibrary :
    let fresh := start .empty [] [] (.recorded [] [])
    overwritten.clear.HasLibrary .nothing fresh ∧
      (fresh.evaluate "5").2.clear.HasLibrary libraryEntries fresh :=
  have five : isNumber "5" = true := by decide +kernel
  ⟨clear_hasLibrary (Spared.none.evaluate_any _ (by decide +kernel)),
    clear_hasLibrary (Spared.none.evaluate "5" (by decide +kernel) (evaluateSparing_number five _))⟩

def isFunction : Option Value → Bool
  | some (.library _) => true
  | _ => false

def answers (session : Session) (source text : String) : Bool :=
  match (session.evaluate source).1 with
  | .ok (.string found) => found == text
  | _ => false

/-- Clearing does not bring back an entry of the library that a program has written, and the programs
after it can tell. -/
theorem overwritten_not_restored :
    let fresh := start .empty [] [] (.recorded [] [])
    overwritten.Reached ∧ ¬overwritten.clear.HasLibrary libraryEntries fresh ∧
      fresh.answers "(typeOf $Array.map)" "lib" = true ∧
      overwritten.clear.answers "(typeOf $Array.map)" "number" = true := by
  -- The first map of the library is that of the array functions.
  refine ⟨.evaluate (.start ..) _, fun library => ?_, by decide +kernel, by decide +kernel⟩
  have same := library.keeps.entries 0 "map" (by decide +kernel) (by decide +kernel)
  have written : isFunction ((overwritten.clear.store.map 0).get? (.string "map")) = false := by
    decide +kernel
  rw [same] at written
  revert written
  decide +kernel

end Session

end ShellLisp
