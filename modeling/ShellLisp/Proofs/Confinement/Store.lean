import ShellLisp.Proofs.Confinement.Actions

/-!
# Confined changes of the store

A store stays closed when a new value is made of values of the region, and when a value of the
region takes in other values of the region. What is not of the region may be anything.
-/

namespace ShellLisp

theorem Entries.mem_put {found : Entries} {key value : Value} {entry : Value × Value}
    (member : entry ∈ (found.put key value).toList) :
    entry ∈ found.toList ∨
      (entry.1 = key ∨ ∃ old ∈ found.toList, old.1 = entry.1) ∧ entry.2 = value := by
  unfold Entries.put at member
  split at member
  · rename_i position there
    obtain ⟨index, bound, same⟩ := List.getElem_of_mem member
    rw [Array.getElem_toList, Array.getElem_modify] at same
    simp only [Array.length_toList, Array.size_modify] at bound
    split at same
    · right
      refine ⟨Or.inr ⟨found[index], Array.getElem_mem_toList bound, ?_⟩, ?_⟩
      · rw [← same]
      · rw [← same]
    · exact .inl (same ▸ Array.getElem_mem_toList bound)
  · rw [Array.toList_push, List.mem_append, List.mem_singleton] at member
    exact member.imp id fun same => ⟨.inl (congrArg Prod.fst same), congrArg Prod.snd same⟩

theorem Bindings.mem_define {name : String} {value : Value} {bindings : Bindings Value}
    {entry : String × Value} (member : entry ∈ Bindings.define name value bindings) :
    entry ∈ bindings ∨ entry.2 = value := by
  induction bindings with
  | nil => exact .inr (congrArg Prod.snd (List.mem_singleton.mp member))
  | cons first rest ih =>
      unfold Bindings.define at member
      split at member
      · rcases List.mem_cons.mp member with same | later
        · exact .inr (congrArg Prod.snd same)
        · exact .inl (List.mem_cons_of_mem _ later)
      · rcases List.mem_cons.mp member with same | later
        · exact .inl (List.mem_cons.mpr (.inl same))
        · exact (ih later).imp (List.mem_cons_of_mem _) id

namespace Region
variable {R : Region} {store : Store}

theorem values_cons {first : Value} {rest : List Value} :
    R.values (first :: rest) ↔ R.value first ∧ R.values rest := List.forall_mem_cons

theorem values_nil : R.values [] := fun _ member => nomatch member

theorem values_append {first second : List Value} (left : R.values first)
    (right : R.values second) : R.values (first ++ second) :=
  List.forall_mem_append.mpr ⟨left, right⟩

theorem values_subset {items others : List Value} (all : R.values items) (within : others ⊆ items) :
    R.values others := fun item member => all item (within member)

theorem values_headD {items : List Value} (all : R.values items) : R.value (items.headD .null) := by
  cases items with
  | nil => exact R.null
  | cons first rest => exact all first List.mem_cons_self

theorem values_getLastD {items : List Value} (all : R.values items) :
    R.value (items.getLastD .null) := by
  rw [List.getLastD_eq_getLast?]
  cases last : items.getLast? with
  | none => exact R.null
  | some found => exact all found (List.mem_of_getLast? last)

theorem optional_getD {found : Option Value} {fallback : Value} (holds : R.optional found)
    (default : R.value fallback) : R.value (found.getD fallback) := by
  cases found with
  | none => exact default
  | some v => exact holds v rfl

theorem values_chars {α : Type} (items : List α) (text : α → String) :
    R.values (items.map fun item => .string (text item)) := by
  intro item member
  obtain ⟨_, _, rfl⟩ := List.mem_map.mp member
  exact R.string _

theorem entries_put {found : Entries} {key value : Value} (all : R.entries found.toList)
    (holdsKey : R.value key) (holdsValue : R.value value) :
    R.entries (found.put key value).toList := by
  intro entry member
  rcases Entries.mem_put member with old | ⟨same | ⟨former, there, same⟩, new⟩
  · exact all entry old
  · exact ⟨same ▸ holdsKey, new ▸ holdsValue⟩
  · exact ⟨same ▸ (all former there).1, new ▸ holdsValue⟩

theorem entries_get? {found : Entries} {key value : Value} (all : R.entries found.toList)
    (there : found.get? key = some value) : R.value value := by
  obtain ⟨entry, hit, rfl⟩ := Option.map_eq_some_iff.mp there
  exact (all entry (Array.mem_toList_iff.mpr (Array.mem_of_find?_eq_some hit))).2

theorem values_define {row : Bindings Value} {name : String} {value : Value}
    (former : R.values (row.map (·.2))) (holdsValue : R.value value) :
    R.values ((row.define name value).map (·.2)) := by
  intro item member
  obtain ⟨entry, written, rfl⟩ := List.mem_map.mp member
  rcases Bindings.mem_define written with old | new
  · exact former _ (List.mem_map.mpr ⟨entry, old, rfl⟩)
  · exact new ▸ holdsValue

namespace Closed

theorem withNewArray (closed : R.Closed store) {items : Array Value} (all : R.values items.toList) :
    R.Closed (store.newArray items).2 :=
  { closed with
    array := by
      intro ref inside
      show R.values (((store.arrays.push items)[ref]?).getD #[]).toList
      rw [Array.getElem?_push]
      split
      · exact all
      · exact closed.array inside
    newArray := fun ref fresh =>
      closed.newArray ref (by simp only [Store.newArray, Array.size_push] at fresh; omega) }

theorem withNewMap (closed : R.Closed store) {found : Entries} (all : R.entries found.toList) :
    R.Closed (store.newMap found).2 :=
  { closed with
    map := by
      intro ref inside
      show R.entries (((store.maps.push found)[ref]?).getD #[]).toList
      rw [Array.getElem?_push]
      split
      · exact all
      · exact closed.map inside
    newMap := fun ref fresh =>
      closed.newMap ref (by simp only [Store.newMap, Array.size_push] at fresh; omega) }

theorem withNewLibrary (closed : R.Closed store) {cell : LibraryCell}
    (inside : R.function cell.function) (shown : R.value cell.name) :
    R.Closed (store.newLibrary cell).2 :=
  { closed with
    library := by
      intro ref found visible there
      simp only [Store.newLibrary, Array.getElem?_push] at there
      split at there
      · cases there
        exact ⟨inside, shown⟩
      · exact closed.library visible there
    newLibrary := fun ref fresh =>
      closed.newLibrary ref (by simp only [Store.newLibrary, Array.size_push] at fresh; omega) }

theorem withNewClosure (closed : R.Closed store) {function : Closure}
    (inside : R.HasClosure function) : R.Closed (store.newClosure function).2 :=
  { closed with
    closure := by
      intro ref found visible there
      simp only [Store.newClosure, Array.getElem?_push] at there
      split at there
      · cases there
        exact inside
      · exact closed.closure visible there
    newClosure := fun ref fresh =>
      closed.newClosure ref (by simp only [Store.newClosure, Array.size_push] at fresh; omega) }

theorem withNewBound (closed : R.Closed store) {method : BoundMethod}
    (inside : R.HasBound method) : R.Closed (store.newBound method).2 :=
  { closed with
    bound := by
      intro ref found visible there
      simp only [Store.newBound, Array.getElem?_push] at there
      split at there
      · cases there
        exact inside
      · exact closed.bound visible there
    newBound := fun ref fresh =>
      closed.newBound ref (by simp only [Store.newBound, Array.size_push] at fresh; omega) }

theorem withNewSequence (closed : R.Closed store) (label : String) {state : SequenceState}
    (inside : R.state state) : R.Closed (store.newSequence label state).2 :=
  { closed with
    sequence := by
      intro ref found visible there
      simp only [Store.newSequence, Array.getElem?_push] at there
      split at there
      · cases there
        exact ⟨R.string label, inside⟩
      · exact closed.sequence visible there
    newSequence := fun ref fresh =>
      closed.newSequence ref (by simp only [Store.newSequence, Array.size_push] at fresh; omega) }

theorem modifyArray (closed : R.Closed store) (ref : Nat) {change : Array Value → Array Value}
    (keeps : ∀ items : Array Value, R.values items.toList → R.values (change items).toList) :
    R.Closed (store.modifyArray ref change) :=
  { closed with
    array := by
      intro other inside
      have former := closed.array inside
      simp only [Store.array, Store.modifyArray, Array.getElem?_modify] at former ⊢
      split
      · cases there : store.arrays[other]? with
        | none => exact values_nil
        | some items =>
            rw [there] at former
            exact keeps items former
      · exact former
    newArray := fun other fresh =>
      closed.newArray other (by simpa only [Store.modifyArray, Array.size_modify] using fresh) }

theorem putKey (closed : R.Closed store) (ref : Nat) {key value : Value} (holdsKey : R.value key)
    (holdsValue : R.value value) : R.Closed (store.putKey ref key value) :=
  { closed with
    map := by
      intro other inside
      have former := closed.map inside
      simp only [Store.map, Store.putKey, Array.getElem?_modify] at former ⊢
      split
      · cases there : store.maps[other]? with
        | none => exact fun entry member => nomatch member
        | some found =>
            rw [there] at former
            exact entries_put former holdsKey holdsValue
      · exact former
    newMap := fun other fresh =>
      closed.newMap other (by simpa only [Store.putKey, Array.size_modify] using fresh) }

theorem putAttribute (closed : R.Closed store) (ref : Nat) (name : String) {value : Value}
    (holdsValue : R.value value) : R.Closed (store.putAttribute ref name value) :=
  { closed with
    object := by
      intro other inside
      have former := closed.object inside
      simp only [Store.object, Store.putAttribute, Array.getElem?_modify] at former ⊢
      split
      · cases there : store.objects[other]? with
        | none => exact values_nil
        | some attributes =>
            rw [there] at former
            exact values_define former holdsValue
      · exact former }

theorem putHostAttribute (closed : R.Closed store) (function : HostFunction) (name : String)
    {value : Value} (holdsValue : R.value value) :
    R.Closed (store.putHostAttribute function name value) :=
  { closed with
    host := by
      intro other inside
      have former := closed.host inside
      simp only [Store.putHostAttribute]
      split
      · rename_i same
        subst same
        exact values_define former holdsValue
      · exact former }

theorem renameLibrary (closed : R.Closed store) (ref : Nat) {name : Value}
    (holdsName : R.value name) : R.Closed (store.renameLibrary ref name) :=
  { closed with
    library := by
      intro other cell inside there
      simp only [Store.renameLibrary, Array.getElem?_modify] at there
      split at there
      · obtain ⟨former, found, rfl⟩ := Option.map_eq_some_iff.mp there
        exact ⟨(closed.library inside found).1, holdsName⟩
      · exact closed.library inside there
    newLibrary := fun other fresh =>
      closed.newLibrary other (by simpa only [Store.renameLibrary, Array.size_modify] using fresh) }

theorem renameForm (closed : R.Closed store) (ref : Nat) {name : Value}
    (holdsName : R.value name) : R.Closed (store.renameForm ref name) :=
  { closed with
    form := by
      intro other cell inside there
      simp only [Store.renameForm, Array.getElem?_modify] at there
      split at there
      · obtain ⟨former, found, rfl⟩ := Option.map_eq_some_iff.mp there
        exact holdsName
      · exact closed.form inside there }

theorem modifyClosure (closed : R.Closed store) (ref : Nat) {change : Closure → Closure}
    (keeps : ∀ function, R.HasClosure function → R.HasClosure (change function)) :
    R.Closed (store.modifyClosure ref change) :=
  { closed with
    closure := by
      intro other function inside there
      simp only [Store.modifyClosure, Array.getElem?_modify] at there
      split at there
      · obtain ⟨former, found, rfl⟩ := Option.map_eq_some_iff.mp there
        exact keeps former (closed.closure inside found)
      · exact closed.closure inside there
    newClosure := fun other fresh =>
      closed.newClosure other (by simpa only [Store.modifyClosure, Array.size_modify] using fresh) }

theorem modifyBound (closed : R.Closed store) (ref : Nat) {change : BoundMethod → BoundMethod}
    (keeps : ∀ method, R.HasBound method → R.HasBound (change method)) :
    R.Closed (store.modifyBound ref change) :=
  { closed with
    bound := by
      intro other method inside there
      simp only [Store.modifyBound, Array.getElem?_modify] at there
      split at there
      · obtain ⟨former, found, rfl⟩ := Option.map_eq_some_iff.mp there
        exact keeps former (closed.bound inside found)
      · exact closed.bound inside there
    newBound := fun other fresh =>
      closed.newBound other (by simpa only [Store.modifyBound, Array.size_modify] using fresh) }

theorem replacePart (closed : R.Closed store) (function : Value) (name : String) {value : Value}
    (holdsValue : R.value value) : R.Closed (store.replacePart function name value) := by
  cases function with
  | closure ref =>
      exact closed.modifyClosure ref fun _ former =>
        { former with replaced := values_define former.replaced holdsValue }
  | bound ref =>
      exact closed.modifyBound ref fun _ former =>
        { former with replaced := values_define former.replaced holdsValue }
  | _ => exact closed

theorem modifySequence (closed : R.Closed store) (ref : Nat) {change : LazySequence → LazySequence}
    (keeps : ∀ found, R.HasSequence found → R.HasSequence (change found)) :
    R.Closed (store.modifySequence ref change) :=
  { closed with
    sequence := by
      intro other found inside there
      simp only [Store.modifySequence, Array.getElem?_modify] at there
      split at there
      · obtain ⟨former, old, rfl⟩ := Option.map_eq_some_iff.mp there
        exact keeps former (closed.sequence inside old)
      · exact closed.sequence inside there
    newSequence := fun other fresh =>
      closed.newSequence other
        (by simpa only [Store.modifySequence, Array.size_modify] using fresh) }

end Closed

namespace Writes

theorem newArray {items : Array Value} (all : R.values items.toList) :
    R.Writes (fun store => store.newArray items) R.value where
  same _ _ := rfl
  unchanged _ := rfl
  keeps closed := closed.withNewArray all
  yields closed := closed.newArray _ (Nat.le_refl _)

theorem newMap {found : Entries} (all : R.entries found.toList) :
    R.Writes (fun store => store.newMap found) R.value where
  same _ _ := rfl
  unchanged _ := rfl
  keeps closed := closed.withNewMap all
  yields closed := closed.newMap _ (Nat.le_refl _)

theorem newClosure {function : Closure} (inside : R.HasClosure function) :
    R.Writes (fun store => store.newClosure function) R.value where
  same _ _ := rfl
  unchanged _ := rfl
  keeps closed := closed.withNewClosure inside
  yields closed := closed.newClosure _ (Nat.le_refl _)

theorem newBound {method : BoundMethod} (inside : R.HasBound method) :
    R.Writes (fun store => store.newBound method) R.value where
  same _ _ := rfl
  unchanged _ := rfl
  keeps closed := closed.withNewBound inside
  yields closed := closed.newBound _ (Nat.le_refl _)

theorem newSequence (label : String) {state : SequenceState} (inside : R.state state) :
    R.Writes (fun store => store.newSequence label state) R.value where
  same _ _ := rfl
  unchanged _ := rfl
  keeps closed := closed.withNewSequence label inside
  yields closed := closed.newSequence _ (Nat.le_refl _)

mutual

theorem ofJson (data : Json) : R.Writes (fun store => store.ofJson data) R.value := by
  cases data with
  | null => exact pure R.null
  | bool b => exact pure (R.bool b)
  | number n => exact pure (R.number n)
  | string s => exact pure (R.string s)
  | array items => exact (ofItems items).andThen fun found all => newArray all
  | object fields => exact (ofEntries fields).andThen fun found all => newMap all

theorem ofItems (items : List Json) :
    R.Writes (fun store => Store.ofJson.ofItems store items) R.values := by
  cases items with
  | nil => exact pure values_nil
  | cons item rest =>
      have written (first : Value) (inside : R.value first) (others : List Value)
          (all : R.values others) : R.Writes (fun store => (first :: others, store)) R.values :=
        pure (values_cons.mpr ⟨inside, all⟩)
      exact (ofJson item).andThen fun first inside => (ofItems rest).andThen (written first inside)

theorem ofEntries (fields : List (String × Json)) :
    R.Writes (fun store => Store.ofJson.ofEntries store fields) R.entries := by
  cases fields with
  | nil => exact pure fun entry member => nomatch member
  | cons field rest =>
      obtain ⟨key, item⟩ := field
      have written (first : Value) (inside : R.value first) (others : List (Value × Value))
          (all : R.entries others) :
          R.Writes (fun store => ((.string key, first) :: others, store)) R.entries :=
        pure (List.forall_mem_cons.mpr ⟨⟨R.string key, inside⟩, all⟩)
      exact (ofJson item).andThen fun first inside =>
        (ofEntries rest).andThen (written first inside)

end

end Writes

namespace Confines

theorem newArray {items : Array Value} (all : R.values items.toList) :
    R.Confines (Eval.newArray items) R.value := change (.newArray all)

theorem newTexts (texts : List String) : R.Confines (Eval.newTexts texts) R.value :=
  newArray (by simpa using values_chars texts id)

theorem newMap {found : Entries} (all : R.entries found.toList) :
    R.Confines (Eval.newMap found) R.value := change (.newMap all)

theorem newSequence (label : String) {state : SequenceState} (inside : R.state state) :
    R.Confines (Eval.newSequence label state) R.value := change (.newSequence label inside)

theorem newScope {parent : Nat} (inside : R.scope parent) :
    R.Confines (Eval.newScope parent) fun scope => R.scope scope ∧ R.target scope := by
  intro session holds
  obtain ⟨admitted, scope, target, same⟩ := R.pushChild holds.scopes inside
  have next := R.next_replaced holds.scopes
  refine ⟨?_, ⟨admitted, { holds.closed with }⟩, fun found returned => ?_⟩
  · show (Except.ok (R.replaced session.store.scopes).next,
        { R.masked session with
          store := { (R.masked session).store with
            scopes := (R.replaced session.store.scopes).pushChild parent } }) = _
    rw [next, same]
    rfl
  · cases returned
    exact ⟨scope, target⟩

theorem define {holder : Nat} {value : Value} (inside : R.target holder)
    (holdsValue : R.value value) (name : String) :
    R.Confines (Eval.define holder name value) fun _ => True := by
  refine modified (fun session holds => ?_) fun session holds => ?_
  · obtain ⟨-, same⟩ := R.define holds.scopes inside holdsValue name
    show { R.masked session with
        store := { (R.masked session).store with
          scopes := (R.replaced session.store.scopes).define holder name value } } = _
    rw [same]
    rfl
  · exact ⟨(R.define holds.scopes inside holdsValue name).1, { holds.closed with }⟩

theorem delete {scope : Nat} (inside : R.scope scope) (name : String) :
    R.Confines (Eval.update fun store =>
      { store with scopes := (store.scopes.delete scope name).2 }) fun _ => True := by
  refine modified (fun session holds => ?_) fun session holds => ?_
  · obtain ⟨-, same⟩ := R.delete holds.scopes inside name
    show { R.masked session with
        store := { (R.masked session).store with
          scopes := ((R.replaced session.store.scopes).delete scope name).2 } } = _
    rw [same]
    rfl
  · exact ⟨(R.delete holds.scopes inside name).1, { holds.closed with }⟩

theorem lookup {scope : Nat} (inside : R.scope scope) (name : String) :
    R.Confines (Eval.lookup scope name) R.value := by
  refine get_bind (fun session holds => ?_) fun session holds => ?_
  · show (Pure.pure (((R.replaced session.store.scopes).lookup? scope name).getD .null) :
      Eval Value) = _
    rw [R.lookup_replaced holds.scopes inside]
  · exact pure (optional_getD (fun v found => R.lookup holds.scopes inside found) R.null)

theorem moduleOf {scope : Nat} (inside : R.scope scope) :
    R.Confines (Eval.ask fun store => store.scopes.module? scope)
      fun found => ∀ module, found = some module → R.target module := by
  refine get_bind (fun session holds => ?_) fun session holds => ?_
  · show (Pure.pure ((R.replaced session.store.scopes).module? scope) : Eval (Option Nat)) = _
    rw [R.module_replaced holds.scopes inside]
  · exact pure fun module found => R.module_target holds.scopes inside found

end Confines

end Region

end ShellLisp
