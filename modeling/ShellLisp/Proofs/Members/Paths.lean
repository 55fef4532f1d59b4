import ShellLisp.Evaluation
import ShellLisp.Evaluation.Followed
import ShellLisp.Proofs.Members.Cells
import ShellLisp.Proofs.Members.Parts
import ShellLisp.Proofs.Sequences.Ranges
import ShellLisp.Session.Start

/-!
# Reading what was written

A path is read through containers, the first of which is its root. Writing at the end of a path
changes the last of them only, so the path leads to what was written, as long as the last container
is not met before. A write that fails changes nothing, but its message may show a function, which uses
up a sequence that the function has for its parameters.
-/

namespace ShellLisp

/-! ## Printing on the way -/

def Session.withSequences (session : Session) (sequences : Array LazySequence) : Session :=
  { session with store := { session.store with sequences } }

/-- A session was left as it was but for lazy sequences that were used up when functions among the
shown values were printed. -/
def Session.KeepsBut (shown : Value → Prop) (session after : Session) : Prop :=
  ∃ sequences, after = session.withSequences sequences ∧
    ∀ ref : Nat, sequences[ref]? = session.store.sequences[ref]? ∨
      ∃ value sequence, shown value ∧ session.store.UsesUp value ref sequence ∧
        sequences[ref]? = some { sequence with state := .finished }

/-- An action fails, and has done nothing but print some of the shown values. -/
def Eval.FailsPrinting {α : Type} (shown : Value → Prop) (session between : Session)
    (action : Eval α) : Prop :=
  ∃ failure after, action.runOn between = (.error failure, after) ∧ session.KeepsBut shown after

section
variable {α β : Type} {shown : Value → Prop} {session between : Session} {value : Value}

theorem Session.KeepsBut.refl (session : Session) : session.KeepsBut shown session :=
  ⟨session.store.sequences, rfl, fun _ => .inl rfl⟩

theorem Session.KeepsBut.mono {more : Value → Prop} (kept : session.KeepsBut shown between)
    (weaker : ∀ value, shown value → more value) : session.KeepsBut more between := by
  obtain ⟨sequences, same, each⟩ := kept
  refine ⟨sequences, same, fun ref => (each ref).imp_right ?_⟩
  rintro ⟨value, sequence, member, used⟩
  exact ⟨value, sequence, weaker value member, used⟩

theorem Session.KeepsBut.print (kept : session.KeepsBut shown between) (member : shown value) :
    session.KeepsBut shown ((Eval.print value).runOn between).2 := by
  cases printed : between.store.usedUp? value with
  | none =>
      rw [Eval.runOn_print_none printed]
      exact kept
  | some found =>
      obtain ⟨used, text⟩ := found
      obtain ⟨sequence, uses⟩ := Store.exists_usesUp printed
      rw [Eval.runOn_print_some printed]
      obtain ⟨sequences, rfl, each⟩ := kept
      refine ⟨sequences.modify used fun sequence => { sequence with state := .finished }, rfl,
        fun ref => ?_⟩
      rw [Array.getElem?_modify]
      split
      · rename_i here
        subst here
        have there : sequences[used]? = some sequence := uses.there
        rw [there]
        rcases each used with same | ⟨other, former, among, earlier, same⟩
        · exact .inr ⟨value, sequence, member,
            ⟨uses.takes, same.symm.trans there, uses.still, uses.gives⟩, rfl⟩
        · obtain rfl := Option.some.inj (there.symm.trans same)
          exact .inr ⟨other, former, among, earlier, rfl⟩
      · exact each ref

namespace Eval.FailsPrinting

theorem throw (kept : session.KeepsBut shown between) (failure : Failure) :
    FailsPrinting shown session between (throw failure : Eval α) := ⟨failure, between, rfl, kept⟩

theorem print_bind {next : String → Eval α} (kept : session.KeepsBut shown between)
    (member : shown value)
    (goesOn : ∀ text after, session.KeepsBut shown after →
      FailsPrinting shown session after (next text)) :
    FailsPrinting shown session between (Eval.print value >>= next) := by
  have printed := kept.print member
  unfold FailsPrinting
  rw [Eval.runOn_bind]
  cases outcome : (Eval.print value).runOn between with
  | mk found after =>
      rw [outcome] at printed
      cases found with
      | ok text => exact goesOn text after printed
      | error failure => exact ⟨failure, after, rfl, printed⟩

end Eval.FailsPrinting

end

namespace Member
open Eval
variable {target key value : Value} {session : Session} {place : Location}

/-! ## Writing one member -/

/-- In a session, an action writes a member of an object, or fails and does nothing but print the key
and the object. -/
def WritesMember (target key value : Value) (session : Session) (action : Eval Unit) : Prop :=
  FailsPrinting (fun shown => shown = key ∨ shown = target) session session action ∨
    target.isObject = true ∧ ∃ after, action.runOn session = (.ok (), { session with store := after }) ∧
      session.store.Wrote target key value after

namespace WritesMember

theorem throw (failure : Failure) :
    WritesMember target key value session (throw failure : Eval Unit) :=
  .inl (.throw (.refl session) failure)

theorem update {step : Store → Store} (object : target.isObject = true)
    (wrote : session.store.Wrote target key value (step session.store)) :
    WritesMember target key value session (Eval.update step) := .inr ⟨object, _, rfl, wrote⟩

theorem lift_bind {α : Type} {outcome : Except Fault α} {next : α → Eval Unit}
    (goesOn : ∀ a, outcome = .ok a → WritesMember target key value session (next a)) :
    WritesMember target key value session (Eval.lift outcome >>= next) := by
  cases outcome with
  | ok a => exact goesOn a rfl
  | error fault => exact .inl ⟨.fault fault, session, rfl, .refl session⟩

theorem ite {first second : Eval Unit} {condition : Prop} [Decidable condition]
    (whenTrue : condition → WritesMember target key value session first)
    (whenFalse : ¬condition → WritesMember target key value session second) :
    WritesMember target key value session (if condition then first else second) := by
  split
  · rename_i holds
    exact whenTrue holds
  · rename_i fails
    exact whenFalse fails

end WritesMember

theorem refuse_writes : WritesMember target key value session (refuse target key place) := by
  refine .inl (.print_bind (.refl session) (.inl rfl) fun _ between kept => ?_)
  exact .print_bind kept (.inr rfl) fun _ after kept => .throw kept _

theorem writeElement_writes (ref : Nat) :
    WritesMember (.array ref) key value session (writeElement ref key value place) := by
  refine .lift_bind fun index read => ?_
  cases index with
  | none =>
      exact .inl (.print_bind (.refl session) (.inl rfl) fun _ after kept => .throw kept _)
  | some index =>
      refine .ite (fun last => ?_) fun _ => .ite (fun _ => .throw _) fun _ => ?_
      · exact .update rfl (Store.wrote_newElement (last ▸ read))
      · split
        · rename_i position meant
          exact .update rfl (Store.wrote_element read meant)
        · exact .throw _

theorem writeAttribute_writes {name : String} (visible : isHidden name = false) :
    WritesMember target (.string name) value session (writeAttribute target name value) := by
  unfold writeAttribute
  split
  · exact .update rfl (Store.wrote_object visible _ value)
  · exact .update rfl (Store.wrote_libraryName _ value)
  · exact .update rfl (Store.wrote_formName _ value)
  · exact .update rfl (Store.wrote_closureName _ value)
  · exact .update rfl (Store.wrote_closureParameters _ value)
  · exact .update rfl (Store.wrote_label _ value)
  · exact .throw _
  · exact .update rfl (Store.wrote_host visible _ value)
  · refine .ite (fun part => ?_) fun _ => .throw _
    have object : target.isObject = true := by
      cases target <;> first | rfl | cases part
    exact .update object (Store.wrote_part visible part value)

theorem write_writes (target key value : Value) (session : Session) (place : Location) :
    WritesMember target key value session (write target key value place) := by
  unfold write
  split
  · refine .lift_bind fun _ hashable => ?_
    exact .update rfl (Store.wrote_entry hashable)
  · exact writeElement_writes _
  · exact refuse_writes
  · split
    · split
      · exact refuse_writes
      · rename_i visible
        exact writeAttribute_writes (by simpa using visible)
    · exact refuse_writes

/-! ## Paths -/

/-- A path is read from a container through the earlier containers to the last one. -/
inductive Visits (store : Store) : Value → List Value → List Value → Value → Prop
  | here (container : Value) : Visits store container [] [] container
  | step {container key next last : Value} {rest earlier : List Value}
      (reads : read store container key = .ok next) (later : Visits store next rest earlier last) :
      Visits store container (key :: rest) (container :: earlier) last

/-- Writing at the end of a path is writing to the last container, if the path can be read. -/
theorem runOn_writeAt (target key value : Value) (path : List Value) (session : Session)
    (place : Location) :
    (∃ failure, (writeAt target place (path ++ [key, value])).runOn session =
        (.error failure, session)) ∨
      ∃ earlier last, Visits session.store target path earlier last ∧
        (writeAt target place (path ++ [key, value])).runOn session =
          (write last key value place).runOn session := by
  induction path generalizing target with
  | nil => exact .inr ⟨[], target, .here target, rfl⟩
  | cons step rest ih =>
      have unfolded : writeAt target place (step :: rest ++ [key, value]) = (do
          let next ← Eval.lift (read (← get).store target step)
          writeAt next place (rest ++ [key, value])) := by
        cases rest with
        | nil => rfl
        | cons second rest => cases rest <;> rfl
      rw [unfolded, Eval.runOn_get_bind]
      cases found : read session.store target step with
      | error fault => exact .inl ⟨.fault fault, rfl⟩
      | ok next =>
          rcases ih next with ⟨failure, failed⟩ | ⟨earlier, last, visits, same⟩
          · exact .inl ⟨failure, failed⟩
          · exact .inr ⟨target :: earlier, last, .step found visits, same⟩

theorem runOn_follow {root : Value} {path earlier : List Value}
    (visits : Visits session.store root path earlier target)
    (reads : read session.store target key = .ok value) (before : Option Value) :
    (follow root (path ++ [key]) before).runOn session = (.ok (value, some target), session) := by
  induction visits generalizing before with
  | here container =>
      show (do
        let next ← Eval.lift (read session.store container key)
        follow next [] (some container) : Eval _).runOn session = _
      rw [reads]
      rfl
  | @step container first next last rest earlier found _ ih =>
      show (do
        let next ← Eval.lift (read session.store container first)
        follow next (rest ++ [key]) (some container) : Eval _).runOn session = _
      rw [found]
      exact ih reads (some container)

/-! ## Containers that are left alone -/

theorem closure_of_cell? {store after : Store} {ref : Nat}
    (same : after.cell? (.closure ref) = store.cell? (.closure ref)) :
    after.closures[ref]? = store.closures[ref]? :=
  Option.map_injective (fun _ _ => Cell.closure.inj) same

theorem bound_of_cell? {store after : Store} {ref : Nat}
    (same : after.cell? (.bound ref) = store.cell? (.bound ref)) :
    after.bounds[ref]? = store.bounds[ref]? :=
  Option.map_injective (fun _ _ => Cell.bound.inj) same

theorem replacedPart?_of_cell? {store after : Store} {container : Value}
    (same : after.cell? container = store.cell? container) (name : String) :
    replacedPart? after container name = replacedPart? store container name := by
  have parts : after.replacedParts container = store.replacedParts container := by
    cases container with
    | closure ref => rw [Store.replacedParts, closure_of_cell? same, Store.replacedParts]
    | bound ref => rw [Store.replacedParts, bound_of_cell? same, Store.replacedParts]
    | _ => rfl
  rw [replacedPart?, parts, replacedPart?]

theorem read_of_cell? {store after : Store} {container : Value}
    (same : after.cell? container = store.cell? container) (key : Value) :
    read after container key = read store container key := by
  have replaced := replacedPart?_of_cell? same
  -- A value without a cell is read without the store; any other is read by its cell alone.
  cases container with
  | null | bool | string | tuple | complex => rfl
  | number n => cases n <;> rfl
  | array ref =>
      have items : after.arrays[ref]? = store.arrays[ref]? :=
        Option.map_injective (fun _ _ => Cell.array.inj) same
      simp only [read, Store.array, items]
  | map ref =>
      have entries : after.maps[ref]? = store.maps[ref]? :=
        Option.map_injective (fun _ _ => Cell.map.inj) same
      simp only [read, Store.map, entries]
  | library ref =>
      have cell : after.libraries[ref]? = store.libraries[ref]? :=
        Option.map_injective (fun _ _ => Cell.library.inj) same
      simp only [read, replaced, attributeOf, cell]
  | form ref =>
      have cell : after.forms[ref]? = store.forms[ref]? :=
        Option.map_injective (fun _ _ => Cell.form.inj) same
      simp only [read, replaced, attributeOf, cell]
  | closure ref => simp only [read, replaced, attributeOf, closure_of_cell? same]
  | bound ref => simp only [read, replaced, attributeOf, bound_of_cell? same]
  | sequence ref =>
      have cell : after.sequences[ref]? = store.sequences[ref]? :=
        Option.map_injective (fun _ _ => Cell.sequence.inj) same
      simp only [read, replaced, attributeOf, cell]
  | object ref =>
      have row : after.objects[ref]? = store.objects[ref]? :=
        Option.map_injective (fun _ _ => Cell.attributes.inj) same
      simp only [read, replaced, attributeOf, Store.object, row]
  | host function =>
      have row : after.hosts function = store.hosts function :=
        Cell.attributes.inj (Option.some.inj same)
      simp only [read, replaced, attributeOf, row]

theorem Visits.of_cells {store after : Store} {root last : Value} {path earlier : List Value}
    (visits : Visits store root path earlier last)
    (same : ∀ container ∈ earlier, after.cell? container = store.cell? container) :
    Visits after root path earlier last := by
  induction visits with
  | here container => exact .here container
  | step reads _ ih =>
      obtain ⟨first, others⟩ := List.forall_mem_cons.mp same
      exact .step ((read_of_cell? first _).trans reads) (ih others)

end Member

/-! ## Objects that are there -/

theorem Value.IsAtom.isObject {v : Value} (atom : v.IsAtom) : v.isObject = false := by
  cases v <;> first | rfl | exact atom.elim

namespace Store
variable {store : Store}

theorem contents_atom {v : Value} (atom : v.IsAtom) : store.contents v = [] := by
  cases v <;> first | rfl | exact atom.elim

/-- The objects that can be got at from a value are there. -/
def Grounds (store : Store) (root : Value) : Prop :=
  ∀ v, store.Reaches (.value root) (.value v) → v.isObject = true → (store.cell? v).isSome = true

theorem grounds_atom {v : Value} (atom : v.IsAtom) : store.Grounds v := by
  intro other reached object
  rcases Relation.ReflTransGen.cases_head reached with same | ⟨next, leads, -⟩
  · cases same
    simp [atom.isObject] at object
  · cases leads with
    | content inside => simp [contents_atom atom] at inside
    | defining => exact atom.elim

theorem grounds_array {ref : Nat} {items : Array Value} (there : store.arrays[ref]? = some items)
    (flat : ∀ item ∈ items, item.IsAtom) : store.Grounds (.array ref) := by
  intro v reached object
  rcases Relation.ReflTransGen.cases_head reached with same | ⟨next, leads, further⟩
  · cases same
    simp [cell?, there]
  · cases leads with
    | content inside =>
        rename_i item
        have listed : item ∈ items := by simpa [contents, Store.array, there] using inside
        exact grounds_atom (flat item listed) v further object

theorem Grounds.part {container part : Value} (grounds : store.Grounds container)
    (isPart : Member.IsPart store container part) : store.Grounds part := by
  rcases isPart with inside | atom
  · exact fun v reached => grounds v (.head (.content inside) reached)
  · exact grounds_atom atom

theorem Grounds.visits {root last : Value} {path earlier : List Value} (grounds : store.Grounds root)
    (visits : Member.Visits store root path earlier last) : store.Grounds last := by
  induction visits with
  | here => exact grounds
  | step reads _ ih => exact ih (grounds.part (Member.isPart_read reads))

theorem Grounds.cell? {root : Value} (grounds : store.Grounds root) (object : root.isObject = true) :
    ∃ cell, store.cell? root = some cell :=
  Option.isSome_iff_exists.mp (grounds root .refl object)

end Store

/-! ## Reading what was written -/

namespace Core
variable {session : Session} {root key value : Value} {path : List Value}

theorem runOn_set (engine : Engine) (place : Location) (root key value : Value) (path : List Value)
    (session : Session) :
    (LibraryFunction.call engine place (root :: (path ++ [key, value])) (.core .set)).runOn session =
      (do
        Member.writeAt root place (path ++ [key, value])
        return root : Eval Value).runOn session := by
  have enough : ¬(root :: (path ++ [key, value])).length < 3 := by simp
  show (Core.set place (root :: (path ++ [key, value]))).runOn session = _
  unfold Core.set Arguments.atLeast
  rw [if_neg enough]
  rfl

theorem runOn_get (engine : Engine) (place : Location) (root key : Value) (path : List Value)
    (session : Session) :
    (LibraryFunction.call engine place (root :: (path ++ [key])) (.core .get)).runOn session =
      (Member.followAndBind root (path ++ [key])).runOn session := by
  have enough : ¬(root :: (path ++ [key])).length < 2 := by simp
  show (Core.get place (root :: (path ++ [key]))).runOn session = _
  unfold Core.get Arguments.atLeast
  rw [if_neg enough]
  rfl

theorem runOn_followAndBind {keys : List Value} {last : Option Value}
    (plain : ∀ function, value = .host function → function.takesReceiver = false)
    (found : (Member.follow root keys none).runOn session = (.ok (value, last), session)) :
    (Member.followAndBind root keys).runOn session = (.ok value, session) := by
  unfold Member.followAndBind
  rw [Eval.runOn_bind, found]
  dsimp only
  split
  · rename_i function ref
    rw [plain function rfl]
    rfl
  · rfl

/-- The values that a failing write prints: the key, and the last container of the path. -/
def IsPrinted (store : Store) (root key : Value) (path : List Value) (value : Value) : Prop :=
  value = key ∨ ∃ earlier, Member.Visits store root path earlier value

theorem runOn_set_changes (engine : Engine) (place : Location) (root key value : Value)
    (path : List Value) (session : Session) :
    (Eval.FailsPrinting (IsPrinted session.store root key path) session session
        (LibraryFunction.call engine place (root :: (path ++ [key, value])) (.core .set))) ∨
      ∃ earlier last store, Member.Visits session.store root path earlier last ∧
        last.isObject = true ∧ session.store.Wrote last key value store ∧
        (LibraryFunction.call engine place (root :: (path ++ [key, value])) (.core .set)).runOn
          session = (.ok root, { session with store := store }) := by
  unfold Eval.FailsPrinting
  rw [runOn_set, Eval.runOn_bind]
  rcases Member.runOn_writeAt root key value path session place with
    ⟨failure, failed⟩ | ⟨earlier, last, visits, same⟩
  · rw [failed]
    exact .inl ⟨failure, session, rfl, .refl session⟩
  rw [same]
  rcases Member.write_writes last key value session place with
    ⟨failure, after, failed, kept⟩ | ⟨object, store, done, wrote⟩
  · rw [failed]
    refine .inl ⟨failure, after, rfl, kept.mono ?_⟩
    rintro shown (rfl | rfl)
    · exact .inl rfl
    · exact .inr ⟨earlier, visits⟩
  · rw [done]
    exact .inr ⟨earlier, last, store, visits, object, wrote, rfl⟩

/-- A write at the end of a path changes nothing if it fails, but for sequences that its message uses
up. If it returns, what is returned is the root, only the last container was changed, and there only
under the key; the path then leads to what was written unless it meets that container before its
end. -/
theorem set_get (grounds : session.store.Grounds root)
    (plain : ∀ function, value = .host function → function.takesReceiver = false)
    (engine : Engine) (place : Location) {result : Except Failure Value} {after : Session}
    (run : (LibraryFunction.call engine place (root :: (path ++ [key, value])) (.core .set)).runOn
      session = (result, after))
    (_ : isFollowed result = true) :
    (∀ failure, result = .error failure →
      session.KeepsBut (IsPrinted session.store root key path) after) ∧
    (∀ returned, result = .ok returned → returned = root ∧
      ∃ earlier last, Member.Visits session.store root path earlier last ∧
        after = { session with store := after.store } ∧
        after.store.scopes = session.store.scopes ∧
        (∀ other, other ≠ last → after.store.cell? other = session.store.cell? other) ∧
        (∃ before now, session.store.cell? last = some before ∧
          after.store.cell? last = some now ∧ before.Put key value now) ∧
        (last ∉ earlier →
          (LibraryFunction.call engine place (root :: (path ++ [key])) (.core .get)).runOn after =
            (.ok value, after))) := by
  rcases runOn_set_changes engine place root key value path session with
    ⟨failure, changed, failed, kept⟩ | ⟨earlier, last, store, visits, object, wrote, done⟩
  · obtain ⟨rfl, rfl⟩ := Prod.mk.inj (failed.symm.trans run)
    exact ⟨fun _ _ => kept, nofun⟩
  obtain ⟨rfl, rfl⟩ := Prod.mk.inj (done.symm.trans run)
  refine ⟨nofun, fun returned is => ⟨(Except.ok.inj is).symm, earlier, last, visits, rfl,
    wrote.scopes, wrote.others, ?_, fun apart => ?_⟩⟩
  all_goals
    obtain ⟨before, there⟩ := (grounds.visits visits).cell? object
    obtain ⟨now, written, put, reads⟩ := wrote.changed before there
  · exact ⟨before, now, there, written, put⟩
  · have again : Member.Visits store root path earlier last :=
      visits.of_cells fun container member =>
        wrote.others container fun same => apart (same ▸ member)
    have found := @Member.runOn_follow last key value { session with store := store } root path
      earlier again reads none
    rw [runOn_get]
    exact runOn_followAndBind plain found

def shelf : Store :=
  { Store.empty with
    arrays := #[#[.map 0, .null]]
    maps := #[#[(.string "a", .int 1)]] }

theorem reaches_shelf {node : Node} (reached : shelf.Reaches (.value (.array 0)) node) :
    node = .value (.array 0) ∨ node = .value (.map 0) ∨
      ∃ v : Value, node = .value v ∧ v.IsAtom := by
  induction reached with
  | refl => exact .inl rfl
  | tail _ leads ih =>
      rcases ih with rfl | rfl | ⟨v, rfl, atom⟩
      · cases leads with
        | content member =>
            rename_i part
            have listed : part ∈ [Value.map 0, .null] := member
            obtain rfl | rfl : part = .map 0 ∨ part = .null := by simpa using listed
            · exact .inr (.inl rfl)
            · exact .inr (.inr ⟨_, rfl, trivial⟩)
      · cases leads with
        | content member =>
            rename_i part
            have listed : part ∈ [Value.string "a", .int 1] := member
            obtain rfl | rfl : part = .string "a" ∨ part = .int 1 := by simpa using listed
            · exact .inr (.inr ⟨_, rfl, trivial⟩)
            · exact .inr (.inr ⟨_, rfl, trivial⟩)
      · cases leads with
        | content member => simp [Store.contents_atom atom] at member
        | defining => exact atom.elim

theorem grounds_shelf : shelf.Grounds (.array 0) := by
  intro v reached object
  rcases reaches_shelf reached with same | same | ⟨other, same, atom⟩
  · cases same
    rfl
  · cases same
    rfl
  · cases same
    simp [atom.isObject] at object

theorem set_get_shelf :
    let session : Session :=
      { Session.start .empty [] [] (.recorded [] []) with store := shelf }
    let wrote := (LibraryFunction.call Engine.default ⟨1, 1⟩
      [.array 0, .int 0, .string "b", .int 5] (.core .set)).runOn session
    wrote.1 = .ok (.array 0) ∧
      (LibraryFunction.call Engine.default ⟨1, 1⟩ [.array 0, .int 0, .string "b"]
        (.core .get)).runOn wrote.2 = (.ok (.int 5), wrote.2) := by
  intro session wrote
  obtain ⟨-, returns⟩ := @set_get session (.array 0) (.string "b") (.int 5) [.int 0]
    grounds_shelf nofun Engine.default ⟨1, 1⟩ wrote.1 wrote.2 rfl rfl
  obtain ⟨-, earlier, last, visits, -, -, -, -, reads⟩ := returns (.array 0) rfl
  refine ⟨rfl, reads ?_⟩
  cases visits with
  | step found later =>
      cases found
      cases later
      intro member
      have same : Value.map 0 = .array 0 := List.mem_singleton.mp member
      cases same

/-- A function that prints three numbers as its parameters. -/
def threeParameters : Store :=
  { Store.empty with
    arrays := #[#[.int 1]]
    closures := #[⟨.sequence 0, .value ⟨1, 1⟩ .null, 0, .string "f", []⟩]
    sequences := #[⟨.string "range", .stepping (.int 0) (.int 3) (.int 1) false, false⟩] }

/-- A write that fails may change a sequence: its message shows the key. -/
theorem failed_set_uses_up :
    ¬∀ (session after : Session) (root key value : Value) (path : List Value) (engine : Engine)
        (place : Location) (failure : Failure),
      session.store.Grounds root →
      (LibraryFunction.call engine place (root :: (path ++ [key, value])) (.core .set)).runOn
        session = (.error failure, after) →
      ∀ container, after.store.cell? container = session.store.cell? container := by
  intro unchanged
  let session : Session :=
    { Session.start .empty [] [] (.recorded [] []) with store := threeParameters }
  let wrote := (LibraryFunction.call Engine.default ⟨1, 1⟩ [.array 0, .closure 0, .int 5]
    (.core .set)).runOn session
  have flat : ∀ item ∈ #[Value.int 1], item.IsAtom := by
    intro item inside
    obtain rfl : item = .int 1 := by simpa using inside
    trivial
  have same := unchanged session wrote.2 (.array 0) (.closure 0) (.int 5) [] Engine.default ⟨1, 1⟩ _
    (Store.grounds_array rfl flat) rfl (.sequence 0)
  have used : wrote.2.store.cell? (.sequence 0) =
      some (.sequence ⟨.string "range", .finished, false⟩) := rfl
  rw [used] at same
  cases same

end Core

end ShellLisp
