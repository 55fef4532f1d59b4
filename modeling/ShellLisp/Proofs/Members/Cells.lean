import ShellLisp.Library.Members
import ShellLisp.Proofs.Scoping.Reachability

/-!
# Objects and their cells

What an object of the store is, whatever its kind, is its cell. A write puts a value under a key of
one cell: it replaces what is there, or adds it last. Every other cell stays as it was, and the key
then reads as the value.
-/

namespace ShellLisp

/-! ## Keys -/

theorem Number.same_self (n : Number) : n.same n = true := by
  cases n with
  | int n => simp [same, equal, order?, Binary64.orderInt]
  | float x =>
      by_cases known : (Number.float x).view = .nan
      · simp [same, known]
      · have level := Binary64.order?_self known
        simp [same, equal, order?, level]

mutual

theorem Value.sameKey_self (key : Value) : key.sameKey key = true := by
  cases key with
  | number n => exact n.same_self
  | tuple items => exact sameKeys_self items
  | null | complex => rfl
  | _ => simp [sameKey]

theorem Value.sameKeys_self (keys : List Value) : sameKeys keys keys = true := by
  cases keys with
  | nil => rfl
  | cons key rest => simp [sameKeys, sameKey_self key, sameKeys_self rest]

end

theorem Entries.get?_put_self (entries : Entries) (key value : Value) :
    (entries.put key value).get? key = some value := by
  unfold put get? position?
  cases found : entries.findIdx? fun entry => entry.1.sameKey key with
  | none =>
      have fresh := Array.findIdx?_eq_none_iff.mp found
      have missed : entries.find? (fun entry => entry.1.sameKey key) = none :=
        Array.find?_eq_none.mpr fun entry member => by simp [fresh entry member]
      simp [Array.find?_push, missed, key.sameKey_self]
  | some position =>
      obtain ⟨there, same, earlier⟩ := Array.findIdx?_eq_some_iff_getElem.mp found
      have bound : position < entries.toList.length := there
      have missed : (entries.toList.take position).find? (fun entry => entry.1.sameKey key) =
          none := by
        refine List.find?_eq_none.mpr fun entry member => ?_
        obtain ⟨index, small, rfl⟩ := List.mem_take_iff_getElem.mp member
        exact earlier index (by omega)
      rw [← Array.find?_toList, Array.toList_modify, List.modify_eq_take_cons_drop bound,
        List.find?_append, missed]
      simp [same]

/-! ## Cells -/

inductive Cell
  | array (items : Array Value)
  | map (entries : Entries)
  | library (cell : LibraryCell)
  | form (cell : FormCell)
  | closure (found : Closure)
  | bound (method : BoundMethod)
  | sequence (found : LazySequence)
  | attributes (row : Bindings Value)

def Value.isObject : Value → Bool
  | .null | .bool _ | .number _ | .string _ | .tuple _ | .complex => false
  | _ => true

def Store.cell? (store : Store) : Value → Option Cell
  | .array ref => store.arrays[ref]?.map .array
  | .map ref => store.maps[ref]?.map .map
  | .library ref => store.libraries[ref]?.map .library
  | .form ref => store.forms[ref]?.map .form
  | .closure ref => store.closures[ref]?.map .closure
  | .bound ref => store.bounds[ref]?.map .bound
  | .sequence ref => store.sequences[ref]?.map .sequence
  | .object ref => store.objects[ref]?.map .attributes
  | .host function => some (.attributes (store.hosts function))
  | .null | .bool _ | .number _ | .string _ | .tuple _ | .complex => none

/-- Two cells that differ in what a key leads to, which in the second is a value: an entry, element
or attribute that was replaced, or one that was added last. -/
inductive Cell.Put (key value : Value) : Cell → Cell → Prop
  | entry {entries : Entries} {position : Nat} {spelling old : Value}
      (there : entries[position]? = some (spelling, old)) (same : spelling.sameKey key = true) :
      Put key value (.map entries) (.map (entries.setIfInBounds position (spelling, value)))
  | newEntry {entries : Entries} (fresh : ∀ entry ∈ entries, entry.1.sameKey key = false) :
      Put key value (.map entries) (.map (entries.push (key, value)))
  | element {items : Array Value} {index : Int} {position : Nat}
      (read : Member.index? key = .ok (some index)) (there : position < items.size)
      (place : index = position ∨ index = position - (items.size : Int)) :
      Put key value (.array items) (.array (items.setIfInBounds position value))
  | newElement {items : Array Value} (read : Member.index? key = .ok (some (items.size : Int))) :
      Put key value (.array items) (.array (items.push value))
  | field {row : Bindings Value} {position : Nat} {name : String} {old : Value}
      (is : key = .string name) (there : row[position]? = some (name, old)) :
      Put key value (.attributes row) (.attributes (row.set position (name, value)))
  | newField {row : Bindings Value} {name : String} (is : key = .string name)
      (fresh : ∀ entry ∈ row, entry.1 ≠ name) :
      Put key value (.attributes row) (.attributes (row ++ [(name, value)]))
  | libraryName (is : key = .string "name") (cell : LibraryCell) :
      Put key value (.library cell) (.library { cell with name := value })
  | formName (is : key = .string "name") (cell : FormCell) :
      Put key value (.form cell) (.form { cell with name := value })
  | closureName (is : key = .string "name") (found : Closure) :
      Put key value (.closure found) (.closure { found with name := value })
  | closureParameters (is : key = .string "params") (found : Closure) :
      Put key value (.closure found) (.closure { found with parameters := value })
  | closurePart {name : String} (is : key = .string name)
      (part : name ∈ ["body", "scope", "evaluator"]) (found : Closure) :
      Put key value (.closure found)
        (.closure { found with replaced := Bindings.define name value found.replaced })
  | boundPart {name : String} (is : key = .string name) (part : name ∈ ["receiver", "function"])
      (method : BoundMethod) :
      Put key value (.bound method)
        (.bound { method with replaced := Bindings.define name value method.replaced })
  | label (is : key = .string "label") (found : LazySequence) :
      Put key value (.sequence found) (.sequence { found with label := value })

theorem Cell.put_entries (entries : Entries) (key value : Value) :
    Cell.Put key value (.map entries) (.map (entries.put key value)) := by
  unfold Entries.put Entries.position?
  cases found : entries.findIdx? fun entry => entry.1.sameKey key with
  | none => exact .newEntry (Array.findIdx?_eq_none_iff.mp found)
  | some position =>
      obtain ⟨there, same, -⟩ := Array.findIdx?_eq_some_iff_getElem.mp found
      have written : (entries.modify position fun entry => (entry.1, value)) =
          entries.setIfInBounds position (entries[position].1, value) := by
        refine Array.ext_getElem? fun index => ?_
        rw [Array.getElem?_modify, Array.getElem?_setIfInBounds]
        by_cases here : position = index
        · subst here
          simp [there]
        · simp [here]
      dsimp only
      rw [written]
      exact .entry (Array.getElem?_eq_getElem there) same

theorem Cell.put_define (row : Bindings Value) (name : String) (value : Value) :
    Cell.Put (.string name) value (.attributes row)
      (.attributes (Bindings.define name value row)) := by
  have ways : (∃ position old, row[position]? = some (name, old) ∧
        Bindings.define name value row = row.set position (name, value)) ∨
      (∀ entry ∈ row, entry.1 ≠ name) ∧
        Bindings.define name value row = row ++ [(name, value)] := by
    induction row with
    | nil => exact .inr ⟨nofun, rfl⟩
    | cons first rest ih =>
        obtain ⟨found, old⟩ := first
        rw [Bindings.define]
        by_cases here : found = name
        · subst here
          exact .inl ⟨0, old, rfl, if_pos rfl⟩
        · rw [if_neg here]
          rcases ih with ⟨position, old, there, written⟩ | ⟨fresh, written⟩
          · exact .inl ⟨position + 1, old, there, by rw [written, List.set_cons_succ]⟩
          · exact .inr ⟨List.forall_mem_cons.mpr ⟨here, fresh⟩, by rw [written, List.cons_append]⟩
  rcases ways with ⟨position, old, there, written⟩ | ⟨fresh, written⟩
  · exact written ▸ .field rfl there
  · exact written ▸ .newField rfl fresh

/-! ## Writes -/

namespace Store
variable {store after : Store} {target key value : Value}

/-- A value was written under a key of one object, and nothing else happened. -/
structure Wrote (store : Store) (target key value : Value) (after : Store) : Prop where
  scopes : after.scopes = store.scopes
  others : ∀ other, other ≠ target → after.cell? other = store.cell? other
  changed : ∀ before, store.cell? target = some before →
    ∃ now, after.cell? target = some now ∧ before.Put key value now ∧
      Member.read after target key = .ok value

theorem map_modify_of_ne {α : Type} {cells : Array α} {change : α → α} {ref found : Nat}
    (wrap : α → Cell) (different : ref ≠ found) :
    (cells.modify ref change)[found]?.map wrap = cells[found]?.map wrap := by
  simp [Array.getElem?_modify, different]

theorem wrote_entry {ref : Nat} (hashable : key.checkKey = .ok ()) :
    store.Wrote (.map ref) key value (store.putKey ref key value) where
  scopes := rfl
  others other apart := by
    cases other <;> try rfl
    exact map_modify_of_ne _ fun same => apart (same ▸ rfl)
  changed before there := by
    obtain ⟨entries, found, rfl⟩ := Option.map_eq_some_iff.mp there
    have written : (store.putKey ref key value).map ref = entries.put key value := by
      simp [map, putKey, Array.getElem?_modify, found]
    refine ⟨.map (entries.put key value), ?_, Cell.put_entries entries key value, ?_⟩
    · simp [cell?, putKey, Array.getElem?_modify, found]
    · rw [Member.read, hashable, written, entries.get?_put_self]
      rfl

theorem wrote_array {ref : Nat} {change : Array Value → Array Value}
    (put : ∀ items, store.arrays[ref]? = some items →
      Cell.Put key value (.array items) (.array (change items)) ∧
        Member.element (change items).toList id key = .ok value) :
    store.Wrote (.array ref) key value (store.modifyArray ref change) where
  scopes := rfl
  others other apart := by
    cases other <;> try rfl
    exact map_modify_of_ne _ fun same => apart (same ▸ rfl)
  changed before there := by
    obtain ⟨items, found, rfl⟩ := Option.map_eq_some_iff.mp there
    obtain ⟨differ, reads⟩ := put items found
    have written : (store.modifyArray ref change).array ref = change items := by
      simp [array, modifyArray, Array.getElem?_modify, found]
    refine ⟨.array (change items), ?_, differ, ?_⟩
    · simp [cell?, modifyArray, Array.getElem?_modify, found]
    · rw [Member.read, written]
      exact reads

theorem array_of_getElem? {ref : Nat} {items : Array Value}
    (found : store.arrays[ref]? = some items) : store.array ref = items := by
  rw [array, found]
  rfl

theorem wrote_newElement {ref : Nat}
    (read : Member.index? key = .ok (some ((store.array ref).size : Int))) :
    store.Wrote (.array ref) key value (store.modifyArray ref (·.push value)) := by
  refine wrote_array fun items found => ?_
  rw [array_of_getElem? found] at read
  refine ⟨.newElement read, ?_⟩
  have last : Member.position? (items.size + 1) (items.size : Int) = some items.size := by
    rw [Member.position?, if_pos (Int.natCast_nonneg _), if_pos (by omega), Int.toNat_natCast]
  simp [Member.element, read, last, bind, Except.bind, pure, Except.pure]

theorem position?_eq_some {length : Nat} {index : Int} {position : Nat}
    (meant : Member.position? length index = some position) :
    position < length ∧ (index = position ∨ index = position - (length : Int)) := by
  unfold Member.position? at meant
  split at meant
  · split at meant
    · cases meant
      omega
    · cases meant
  · split at meant
    · cases meant
      omega
    · cases meant

theorem wrote_element {ref position : Nat} {index : Int}
    (read : Member.index? key = .ok (some index))
    (meant : Member.position? (store.array ref).size index = some position) :
    store.Wrote (.array ref) key value
      (store.modifyArray ref (·.setIfInBounds position value)) := by
  refine wrote_array fun items found => ?_
  rw [array_of_getElem? found] at meant
  obtain ⟨there, place⟩ := position?_eq_some meant
  refine ⟨.element read there place, ?_⟩
  simp [Member.element, read, meant, there, bind, Except.bind, pure, Except.pure]

theorem read_attribute {name : String} (visible : Member.isHidden name = false)
    (followed : Member.isInternal target name = false)
    (own : name ∉ Member.parts target)
    (unfolded : ∀ name, Member.read store target (.string name) =
      if Member.isHidden name then .ok .null
      else
        match Member.replacedPart? store target name with
        | some value => .ok value
        | none =>
            if Member.isInternal target name then .error (.internal target.typeName name)
            else .ok (Member.attributeOf store target name)) :
    Member.read store target (.string name) = .ok (Member.attributeOf store target name) := by
  have unreplaced : Member.replacedPart? store target name = none := if_neg own
  simp [unfolded, visible, followed, unreplaced]

section
variable {name : String} (visible : Member.isHidden name = false)
include visible

theorem wrote_object (ref : Nat) (value : Value) :
    store.Wrote (.object ref) (.string name) value (store.putAttribute ref name value) where
  scopes := rfl
  others other apart := by
    cases other <;> try rfl
    exact map_modify_of_ne _ fun same => apart (same ▸ rfl)
  changed before there := by
    obtain ⟨row, found, rfl⟩ := Option.map_eq_some_iff.mp there
    refine ⟨.attributes (row.define name value), ?_, Cell.put_define row name value, ?_⟩
    · simp [cell?, putAttribute, Array.getElem?_modify, found]
    · rw [read_attribute visible rfl (by simp [Member.parts]) fun _ => rfl]
      simp [Member.attributeOf, object, putAttribute, Array.getElem?_modify, found,
        Bindings.lookup_define_self]

theorem wrote_host (function : HostFunction) (value : Value) :
    store.Wrote (.host function) (.string name) value
      (store.putHostAttribute function name value) where
  scopes := rfl
  others other apart := by
    cases other <;> try rfl
    rename_i found
    have different : found ≠ function := fun same => apart (congrArg Value.host same)
    simp [cell?, putHostAttribute, different]
  changed before there := by
    cases there
    refine ⟨_, rfl, ?_, ?_⟩
    · simpa [putHostAttribute] using Cell.put_define (store.hosts function) name value
    · rw [read_attribute visible rfl (by simp [Member.parts]) fun _ => rfl]
      simp [Member.attributeOf, putHostAttribute, Bindings.lookup_define_self]

end

theorem wrote_libraryName (ref : Nat) (value : Value) :
    store.Wrote (.library ref) (.string "name") value (store.renameLibrary ref value) where
  scopes := rfl
  others other apart := by
    cases other <;> try rfl
    exact map_modify_of_ne _ fun same => apart (same ▸ rfl)
  changed before there := by
    obtain ⟨cell, found, rfl⟩ := Option.map_eq_some_iff.mp there
    refine ⟨.library { cell with name := value }, ?_, .libraryName rfl cell, ?_⟩
    · simp [cell?, renameLibrary, Array.getElem?_modify, found]
    · rw [read_attribute rfl rfl (by simp [Member.parts]) fun _ => rfl]
      simp [Member.attributeOf, renameLibrary, Array.getElem?_modify, found]

theorem wrote_formName (ref : Nat) (value : Value) :
    store.Wrote (.form ref) (.string "name") value (store.renameForm ref value) where
  scopes := rfl
  others other apart := by
    cases other <;> try rfl
    exact map_modify_of_ne _ fun same => apart (same ▸ rfl)
  changed before there := by
    obtain ⟨cell, found, rfl⟩ := Option.map_eq_some_iff.mp there
    refine ⟨.form { cell with name := value }, ?_, .formName rfl cell, ?_⟩
    · simp [cell?, renameForm, Array.getElem?_modify, found]
    · rw [read_attribute rfl rfl (by simp [Member.parts]) fun _ => rfl]
      simp [Member.attributeOf, renameForm, Array.getElem?_modify, found]

theorem wrote_closure {ref : Nat} {change : Closure → Closure}
    (put : ∀ found, Cell.Put key value (.closure found) (.closure (change found)))
    (reads : ∀ found, store.closures[ref]? = some found →
      Member.read (store.modifyClosure ref change) (.closure ref) key = .ok value) :
    store.Wrote (.closure ref) key value (store.modifyClosure ref change) where
  scopes := rfl
  others other apart := by
    cases other <;> try rfl
    exact map_modify_of_ne _ fun same => apart (same ▸ rfl)
  changed before there := by
    obtain ⟨former, found, rfl⟩ := Option.map_eq_some_iff.mp there
    refine ⟨.closure (change former), ?_, put former, reads former found⟩
    simp [cell?, modifyClosure, Array.getElem?_modify, found]

theorem wrote_closureName (ref : Nat) (value : Value) :
    store.Wrote (.closure ref) (.string "name") value
      (store.modifyClosure ref fun closure => { closure with name := value }) :=
  wrote_closure (fun found => .closureName rfl found) fun former found => by
    rw [read_attribute rfl rfl (by simp [Member.parts]) fun _ => rfl]
    simp [Member.attributeOf, modifyClosure, Array.getElem?_modify, found]

theorem wrote_closureParameters (ref : Nat) (value : Value) :
    store.Wrote (.closure ref) (.string "params") value
      (store.modifyClosure ref fun closure => { closure with parameters := value }) :=
  wrote_closure (fun found => .closureParameters rfl found) fun former found => by
    rw [read_attribute rfl rfl (by simp [Member.parts]) fun _ => rfl]
    simp [Member.attributeOf, modifyClosure, Array.getElem?_modify, found]

theorem wrote_closurePart {name : String} (visible : Member.isHidden name = false) {ref : Nat}
    (part : name ∈ Member.parts (.closure ref)) (value : Value) :
    store.Wrote (.closure ref) (.string name) value
      (store.replacePart (.closure ref) name value) :=
  wrote_closure (fun found => .closurePart rfl part found) fun former found => by
    simp [Member.read, visible, Member.replacedPart?, part, replacedParts, modifyClosure,
      Array.getElem?_modify, found, Bindings.lookup_define_self]

theorem wrote_boundPart {name : String} (visible : Member.isHidden name = false) {ref : Nat}
    (part : name ∈ Member.parts (.bound ref)) (value : Value) :
    store.Wrote (.bound ref) (.string name) value
      (store.replacePart (.bound ref) name value) where
  scopes := rfl
  others other apart := by
    cases other <;> try rfl
    exact map_modify_of_ne _ fun same => apart (same ▸ rfl)
  changed before there := by
    obtain ⟨former, found, rfl⟩ := Option.map_eq_some_iff.mp there
    refine ⟨_, ?_, .boundPart rfl part former, ?_⟩
    · simp [cell?, replacePart, modifyBound, Array.getElem?_modify, found]
    · simp [Member.read, visible, Member.replacedPart?, part, replacedParts, replacePart,
        modifyBound, Array.getElem?_modify, found, Bindings.lookup_define_self]

theorem wrote_part {name : String} (visible : Member.isHidden name = false)
    (part : name ∈ Member.parts target) (value : Value) :
    store.Wrote target (.string name) value (store.replacePart target name value) := by
  cases target with
  | closure ref => exact wrote_closurePart visible part value
  | bound ref => exact wrote_boundPart visible part value
  | _ => cases part

theorem wrote_label (ref : Nat) (value : Value) :
    store.Wrote (.sequence ref) (.string "label") value
      (store.modifySequence ref fun sequence => { sequence with label := value }) where
  scopes := rfl
  others other apart := by
    cases other <;> try rfl
    exact map_modify_of_ne _ fun same => apart (same ▸ rfl)
  changed before there := by
    obtain ⟨former, found, rfl⟩ := Option.map_eq_some_iff.mp there
    refine ⟨.sequence { former with label := value }, ?_, .label rfl former, ?_⟩
    · simp [cell?, modifySequence, Array.getElem?_modify, found]
    · rw [read_attribute rfl rfl (by simp [Member.parts]) fun _ => rfl]
      simp [Member.attributeOf, modifySequence, Array.getElem?_modify, found]

end Store

end ShellLisp
