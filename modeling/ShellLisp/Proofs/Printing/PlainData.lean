import ShellLisp.Proofs.Printing.Numbers
import ShellLisp.Proofs.Reading.RoundTrip
import ShellLisp.Session.Start

/-!
# Plain data

Data without functions and without cycles, and the values that hold it in a store. A value that
holds plain data is printed as a tree whose leaves and forms are those of the data.
-/

namespace ShellLisp
open Text

/-- Plain data without elements, which can be the key of a map. -/
inductive Atom
  | null
  | bool (b : Bool)
  | number (n : Number)
  | text (s : String)

inductive Plain
  | atom (a : Atom)
  | array (items : List Plain)
  | map (entries : List (Atom × Plain))

namespace Atom

def value : Atom → Value
  | null => .null
  | bool b => .bool b
  | number n => .number n
  | text s => .string s

def literal : Atom → Literal
  | null => .null
  | bool b => .bool b
  | number n => .number n (n.text.toOption.getD "")
  | text s => .quoted s

def Short : Atom → Prop
  | number n => ∃ text, n.text = .ok text
  | _ => True

/-- Whether a floating-point number is what its text stands for. -/
def ReadsBack : Atom → Prop
  | number (.float x) => ShellLisp.ReadsBack x
  | _ => True

def tree (a : Atom) : Expr := .value .nowhere a.literal

theorem ofLiteral_literal (a : Atom) : Value.ofLiteral a.literal = a.value := by
  cases a <;> rfl

end Atom

namespace Plain

theorem induction {motive : Plain → Prop} (atom : ∀ a, motive (.atom a))
    (array : ∀ items, (∀ item ∈ items, motive item) → motive (.array items))
    (map : ∀ entries, (∀ entry ∈ entries, motive entry.2) → motive (.map entries)) :
    ∀ data, motive data
  | .atom a => atom a
  | .array items => array items fun item _ => induction atom array map item
  | .map entries => map entries fun entry member =>
      have : sizeOf entry.2 < 1 + sizeOf entries := by
        have whole := List.sizeOf_lt_of_mem member
        have part : sizeOf entry = 1 + sizeOf entry.1 + sizeOf entry.2 := by
          cases entry
          rfl
        omega
      induction atom array map entry.2

mutual

def atoms : Plain → List Atom
  | .atom a => [a]
  | .array items => itemAtoms items
  | .map entries => entryAtoms entries

def itemAtoms : List Plain → List Atom
  | [] => []
  | item :: rest => item.atoms ++ itemAtoms rest

def entryAtoms : List (Atom × Plain) → List Atom
  | [] => []
  | (key, item) :: rest => key :: (item.atoms ++ entryAtoms rest)

end

mutual

def tree : Plain → Expr
  | .atom a => a.tree
  | .array items => .array .nowhere (itemTrees items)
  | .map entries => .map .nowhere (entryTrees entries)

def itemTrees : List Plain → List Expr
  | [] => []
  | item :: rest => item.tree :: itemTrees rest

def entryTrees : List (Atom × Plain) → List Expr
  | [] => []
  | (key, item) :: rest => key.tree :: item.tree :: entryTrees rest

end

end Plain

mutual

/-- The values that hold plain data: arrays of its items in order, and maps of its entries in order,
of which no two have the same key. -/
inductive Holds (store : Store) : Value → Plain → Prop
  | atom (a : Atom) : Holds store a.value (.atom a)
  | array {ref : Nat} {values : Array Value} {items : List Plain}
      (cell : store.arrays[ref]? = some values)
      (each : List.Forall₂ (Holds store) values.toList items) :
      Holds store (.array ref) (.array items)
  | map {ref : Nat} {found : Entries} {entries : List (Atom × Plain)}
      (cell : store.maps[ref]? = some found)
      (each : List.Forall₂ (HoldsEntry store) found.toList entries)
      (different : entries.Pairwise fun first second =>
        first.1.value.sameKey second.1.value = false) :
      Holds store (.map ref) (.map entries)

inductive HoldsEntry (store : Store) : Value × Value → Atom × Plain → Prop
  | mk (key : Atom) {v : Value} {item : Plain} (held : Holds store v item) :
      HoldsEntry store (key.value, v) (key, item)

end

/-! ## More arrays and maps -/

namespace Store

def adding (store : Store) (arrays : Array (Array Value)) (maps : Array Entries) : Store :=
  { store with arrays := store.arrays ++ arrays, maps := store.maps ++ maps }

theorem adding_adding (store : Store) (arrays more : Array (Array Value))
    (maps others : Array Entries) :
    (store.adding arrays maps).adding more others =
      store.adding (arrays ++ more) (maps ++ others) := by
  simp [adding]

end Store

theorem getElem?_append_of_some {α : Type} {before more : Array α} {ref : Nat} {a : α}
    (cell : before[ref]? = some a) : (before ++ more)[ref]? = some a := by
  have inside : ref < before.size := (Array.getElem?_eq_some_iff.mp cell).1
  rw [Array.getElem?_append_left inside, cell]

theorem forall₂_of_mem {α β : Type} {r s : α → β → Prop} {as : List α} {bs : List β}
    (each : List.Forall₂ r as bs) (step : ∀ a ∈ as, ∀ b ∈ bs, r a b → s a b) :
    List.Forall₂ s as bs := by
  induction each with
  | nil => exact .nil
  | cons first _ ih =>
      exact .cons (step _ (by simp) _ (by simp) first) (ih fun a inside b member =>
        step a (by simp [inside]) b (by simp [member]))

theorem exists_of_forall₂ {α β : Type} {r : α → β → Prop} {as : List α} {bs : List β}
    (each : List.Forall₂ r as bs) : ∀ a ∈ as, ∃ b ∈ bs, r a b := by
  induction each with
  | nil => exact nofun
  | cons first _ ih =>
      refine List.forall_mem_cons.mpr ⟨⟨_, List.mem_cons_self, first⟩, fun a inside => ?_⟩
      exact (ih a inside).imp fun _ => .imp_left (List.mem_cons_of_mem _)

theorem Holds.adding {store : Store} {v : Value} {data : Plain} (held : Holds store v data)
    (arrays : Array (Array Value)) (maps : Array Entries) :
    Holds (store.adding arrays maps) v data := by
  induction data using Plain.induction generalizing v with
  | atom a =>
      cases held
      exact .atom a
  | array items ih =>
      cases held with
      | array cell each =>
          exact .array (getElem?_append_of_some cell)
            (forall₂_of_mem each fun _ _ item member => ih item member)
  | map entries ih =>
      cases held with
      | map cell each different =>
          refine .map (getElem?_append_of_some cell) (forall₂_of_mem each ?_) different
          rintro _ - _ member ⟨key, inner⟩
          exact .mk key (ih _ member inner)

/-! ## What is printed -/

structure Written (depth : Nat) (data : Plain) (text : String) : Prop where
  chars : data.tree.chars = text.toList
  height : data.tree.height ≤ depth
  short : ∀ a ∈ data.atoms, a.Short

theorem spelled_atom {store : Store} {a : Atom} {text : String}
    (printed : store.leafText true a.value = .ok text) :
    a.literal.spelling = text.toList ∧ a.Short := by
  cases a with
  | number n =>
      cases action : n.text with
      | error fault =>
          simp [Atom.value, Store.leafText, action, Failure.lift, Except.mapError] at printed
      | ok spelling =>
          simp only [Atom.value, Store.leafText, action, Failure.lift, Except.mapError,
            Except.ok.injEq] at printed
          subst printed
          exact ⟨by simp [Atom.literal, action, Literal.spelling, Except.toOption], _, action⟩
  | bool b =>
      cases printed
      cases b <;> exact ⟨rfl, trivial⟩
  | null =>
      cases printed
      exact ⟨rfl, trivial⟩
  | text s =>
      cases printed
      exact ⟨by simp [Atom.literal, Literal.spelling, Text.quote], trivial⟩

theorem written_atom {store : Store} {depth : Nat} {a : Atom} {text : String}
    (printed : store.textWithin store.leafText depth true a.value = .ok text) :
    Written depth (.atom a) text := by
  cases depth with
  | zero => cases printed
  | succ depth =>
      have leaf : store.leafText true a.value = .ok text := by cases a <;> exact printed
      obtain ⟨chars, short⟩ := spelled_atom leaf
      exact ⟨chars, Nat.succ_le_succ (Nat.zero_le depth), List.forall_mem_singleton.mpr short⟩

section
variable {store : Store} {depth : Nat} {inner : Value → Except Failure String}

theorem written_items {items : List Plain}
    (each : ∀ item ∈ items, ∀ {v : Value} {text : String}, Holds store v item →
      inner v = .ok text → Written depth item text)
    {values : List Value} (held : List.Forall₂ (Holds store) values items) {parts : List String}
    (printed : values.mapM inner = .ok parts) :
    Expr.restChars (Plain.itemTrees items) = (parts.flatMap fun part => ' ' :: part.toList) ∧
      Expr.heightAll (Plain.itemTrees items) ≤ depth ∧
      ∀ a ∈ Plain.itemAtoms items, a.Short := by
  induction held generalizing parts with
  | nil =>
      cases printed
      exact ⟨rfl, Nat.zero_le _, nofun⟩
  | cons first _ ih =>
      rw [List.mapM_cons] at printed
      obtain ⟨text, action, later⟩ := exists_of_bind_ok printed
      obtain ⟨texts, others, made⟩ := exists_of_bind_ok later
      cases made
      have written := each _ (by simp) first action
      obtain ⟨chars, height, short⟩ := ih (fun item member => each item (by simp [member])) others
      refine ⟨?_, Nat.max_le.mpr ⟨written.height, height⟩, ?_⟩
      · simp [Plain.itemTrees, Expr.restChars, written.chars, chars]
      · exact List.forall_mem_append.mpr ⟨written.short, short⟩

theorem written_entries {entries : List (Atom × Plain)}
    (key : ∀ (a : Atom) {text : String}, inner a.value = .ok text → Written depth (.atom a) text)
    (each : ∀ entry ∈ entries, ∀ {v : Value} {text : String}, Holds store v entry.2 →
      inner v = .ok text → Written depth entry.2 text)
    {found : List (Value × Value)} (held : List.Forall₂ (HoldsEntry store) found entries)
    {parts : List String}
    (printed : (found.mapM fun entry => do
      let name ← inner entry.1
      let text ← inner entry.2
      return name ++ " " ++ text) = .ok parts) :
    Expr.restChars (Plain.entryTrees entries) = (parts.flatMap fun part => ' ' :: part.toList) ∧
      Expr.heightAll (Plain.entryTrees entries) ≤ depth ∧
      ∀ a ∈ Plain.entryAtoms entries, a.Short := by
  induction held generalizing parts with
  | nil =>
      cases printed
      exact ⟨rfl, Nat.zero_le _, nofun⟩
  | cons first _ ih =>
      obtain ⟨a, inside⟩ := first
      rw [List.mapM_cons] at printed
      obtain ⟨part, action, later⟩ := exists_of_bind_ok printed
      obtain ⟨texts, others, made⟩ := exists_of_bind_ok later
      cases made
      obtain ⟨name, named, rest⟩ := exists_of_bind_ok action
      obtain ⟨text, spelled, joined⟩ := exists_of_bind_ok rest
      cases joined
      have keyWritten := key a named
      have itemWritten := each (a, _) (by simp) inside spelled
      obtain ⟨chars, height, short⟩ := ih (fun item member => each item (by simp [member])) others
      refine ⟨?_, ?_, ?_⟩
      · have keyChars : a.tree.chars = name.toList := keyWritten.chars
        simp [Plain.entryTrees, Expr.restChars, keyChars, itemWritten.chars, chars]
      · exact Nat.max_le.mpr ⟨keyWritten.height, Nat.max_le.mpr ⟨itemWritten.height, height⟩⟩
      · refine List.forall_mem_cons.mpr ⟨keyWritten.short a (by simp [Plain.atoms]), ?_⟩
        exact List.forall_mem_append.mpr ⟨itemWritten.short, short⟩

end

theorem written_of_holds {store : Store} {data : Plain} {depth : Nat} {v : Value} {text : String}
    (held : Holds store v data)
    (printed : store.textWithin store.leafText depth true v = .ok text) :
    Written depth data text := by
  -- There is a text, so there was a level to print with for each level of the data.
  induction data using Plain.induction generalizing depth v text with
  | atom a =>
      cases held
      exact written_atom printed
  | array items ih =>
      cases depth with
      | zero => cases printed
      | succ depth =>
          cases held with
          | array cell each =>
              rename_i ref values
              have found : store.array ref = values := by simp [Store.array, cell]
              rw [Store.textWithin] at printed
              simp only [found] at printed
              obtain ⟨parts, action, made⟩ := exists_of_bind_ok printed
              cases made
              obtain ⟨chars, height, short⟩ :=
                written_items (fun item member _ _ => ih item member) each action
              refine ⟨?_, Nat.succ_le_succ height, short⟩
              simp [Plain.tree, Expr.chars, ← Expr.joined_eq_bodyChars chars]
  | map entries ih =>
      cases depth with
      | zero => cases printed
      | succ depth =>
          cases held with
          | map cell each different =>
              rename_i ref found
              have same : store.map ref = found := by simp [Store.map, cell]
              rw [Store.textWithin] at printed
              simp only [same] at printed
              obtain ⟨parts, action, made⟩ := exists_of_bind_ok printed
              cases made
              obtain ⟨chars, height, short⟩ := written_entries (fun a _ => written_atom)
                (fun entry member _ _ => ih entry member) each action
              refine ⟨?_, Nat.succ_le_succ height, short⟩
              simp [Plain.tree, Expr.chars, ← Expr.joined_eq_bodyChars chars]

end ShellLisp
