import ShellLisp.Library.Members
import ShellLisp.Proofs.Scoping.Reachability

/-!
# Parts of values

What one step of a path reads is a value that the container is made of, or an atom.
-/

namespace ShellLisp

def Value.IsAtom : Value → Prop
  | .null | .bool _ | .number _ | .string _ => True
  | _ => False

def Value.IsPlain : Value → Prop
  | .array _ | .map _ => True
  | v => v.IsAtom

theorem Value.IsAtom.isPlain {v : Value} (atom : v.IsAtom) : v.IsPlain := by
  cases v <;> trivial

theorem List.lookup_mem {name : String} {row : Bindings Value} {value : Value}
    (found : List.lookup name row = some value) : value ∈ row.map (·.2) := by
  obtain ⟨before, after, same, -⟩ := List.lookup_eq_some_iff.mp found
  exact List.mem_map.mpr ⟨(name, value), by simp [same], rfl⟩

theorem Entries.get?_mem {entries : Entries} {key value : Value}
    (found : entries.get? key = some value) : value ∈ entries.toList.map (·.2) := by
  obtain ⟨entry, hit, rfl⟩ := Option.map_eq_some_iff.mp found
  exact List.mem_map_of_mem (Array.mem_toList_iff.mpr (Array.mem_of_find?_eq_some hit))

namespace Member
variable {store : Store} {container key found : Value}

/-- A value that another one is made of, or an atom. -/
def IsPart (store : Store) (container part : Value) : Prop :=
  part ∈ store.contents container ∨ part.IsAtom

theorem isPart_getD {found : Option Value}
    (inside : ∀ v, found = some v → v ∈ store.contents container) :
    IsPart store container (found.getD .null) := by
  cases found with
  | none => exact .inr trivial
  | some v => exact .inl (inside v rfl)

theorem isPart_element {α : Type} {items : List α} {value : α → Value}
    (inside : ∀ item ∈ items, IsPart store container (value item))
    (read : element items value key = .ok found) : IsPart store container found := by
  unfold element at read
  cases meaning : index? key with
  | error fault => rw [meaning] at read; cases read
  | ok meant =>
      rw [meaning] at read
      cases meant with
      | none =>
          cases read
          exact .inr trivial
      | some index =>
          cases read
          cases there : (position? items.length index).bind (items[·]?) with
          | none => exact .inr trivial
          | some item =>
              obtain ⟨position, -, at_⟩ := Option.bind_eq_some_iff.mp there
              exact inside item (List.mem_of_getElem? at_)

theorem isPart_wholeAttribute (name : String) (n : Int) :
    IsPart store container (attributeOf.wholeAttribute name n) := by
  unfold attributeOf.wholeAttribute
  split
  · exact .inr trivial
  · split
    · exact .inr trivial
    · split <;> exact .inr trivial

theorem isPart_attributeOf (container : Value) (name : String) :
    IsPart store container (attributeOf store container name) := by
  unfold attributeOf
  split
  · exact isPart_wholeAttribute name _
  · exact isPart_wholeAttribute name _
  · split
    · exact .inr trivial
    · split <;> exact .inr trivial
  · split
    · exact isPart_getD fun v there => by simp [Store.contents, there]
    · exact .inr trivial
  · split
    · exact isPart_getD fun v there => by simp [Store.contents, there]
    · exact .inr trivial
  · split
    · refine isPart_getD fun v there => ?_
      obtain ⟨closure, found, rfl⟩ := Option.map_eq_some_iff.mp there
      simp [Store.contents, found]
    · split
      · refine isPart_getD fun v there => ?_
        obtain ⟨closure, found, rfl⟩ := Option.map_eq_some_iff.mp there
        simp [Store.contents, found]
      · exact .inr trivial
  · split
    · refine isPart_getD fun v there => ?_
      obtain ⟨method, found, rfl⟩ := Option.map_eq_some_iff.mp there
      simp [Store.contents, found]
    · exact .inr trivial
  · split
    · refine isPart_getD fun v there => ?_
      obtain ⟨sequence, found, rfl⟩ := Option.map_eq_some_iff.mp there
      simp [Store.contents, found]
    · exact .inr trivial
  · exact isPart_getD fun v there => List.lookup_mem there
  · exact isPart_getD fun v there => List.lookup_mem there
  · exact .inr trivial

theorem mem_contents_of_replaced {name : String}
    (there : replacedPart? store container name = some found) :
    found ∈ store.contents container := by
  unfold replacedPart? at there
  split at there
  · have row : found ∈ (store.replacedParts container).map (·.2) := List.lookup_mem there
    cases container with
    | closure ref =>
        cases held : store.closures[ref]? with
        | none => simp [Store.replacedParts, held] at row
        | some closure =>
            simp only [Store.replacedParts, held, Option.map_some, Option.getD_some] at row
            simp [Store.contents, held, row]
    | bound ref =>
        cases held : store.bounds[ref]? with
        | none => simp [Store.replacedParts, held] at row
        | some method =>
            simp only [Store.replacedParts, held, Option.map_some, Option.getD_some] at row
            simp [Store.contents, held, row]
    | _ => simp [Store.replacedParts] at row
  · cases there

theorem isPart_read (read : read store container key = .ok found) :
    IsPart store container found := by
  unfold Member.read at read
  split at read
  · cases read
    exact .inr trivial
  · cases checked : key.checkKey with
    | error fault => rw [checked] at read; cases read
    | ok _ =>
        rw [checked] at read
        cases read
        exact isPart_getD fun v there => List.mem_append_right _ (Entries.get?_mem there)
  · exact isPart_element (fun item member => .inl member) read
  · exact isPart_element (fun item member => .inl member) read
  · exact isPart_element (fun c _ => .inr (show Value.IsAtom (.string _) from trivial)) read
  · split at read
    · split at read
      · cases read
        exact .inr trivial
      · split at read
        · rename_i written
          cases read
          exact .inl (mem_contents_of_replaced written)
        · split at read
          · cases read
          · cases read
            exact isPart_attributeOf container _
    · cases read
      exact .inr trivial

end Member

end ShellLisp
