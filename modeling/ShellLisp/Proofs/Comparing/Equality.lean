import Mathlib.Data.List.Nodup
import Mathlib.Data.List.Perm.Subperm
import ShellLisp.Proofs.Comparing.Depths
import ShellLisp.Proofs.Comparing.Magnitudes
import ShellLisp.Proofs.Members.Paths
import ShellLisp.Proofs.Printing.ReadBack

/-!
# Equality of plain data

Equality of plain data is an equivalence relation, and it looks at arrays element by element and at
maps key by key. The elements are compared as if true and false were one and zero, though by
themselves true and false equal no number.
-/

namespace ShellLisp

/-! ## Maps as tables -/

structure Entries.IsTable (entries : Entries) : Prop where
  atoms : ∀ entry ∈ entries.toList, entry.1.IsAtom
  distinct : entries.toList.Pairwise fun first second => first.1.sameKey second.1 = false

namespace Entries.IsTable
variable {entries others : Entries}

theorem nodup (table : entries.IsTable) : (entries.toList.map fun entry => entry.1.mark).Nodup := by
  refine List.pairwise_map.mpr (table.distinct.imp_of_mem fun one other apart same => ?_)
  have key := (Value.sameKey_iff (table.atoms _ one).isPlain (table.atoms _ other).isPlain).mpr same
  exact Bool.false_ne_true (apart.symm.trans key)

theorem get?_eq_some (table : entries.IsTable) {key v : Value} (atom : key.IsAtom) :
    entries.get? key = some v ↔
      ∃ entry ∈ entries.toList, entry.1.mark = key.mark ∧ entry.2 = v := by
  have same_iff (entry : Value × Value) (member : entry ∈ entries.toList) :
      entry.1.sameKey key = true ↔ entry.1.mark = key.mark :=
    Value.sameKey_iff (table.atoms entry member).isPlain atom.isPlain
  unfold Entries.get?
  rw [← Array.find?_toList, Option.map_eq_some_iff]
  constructor
  · rintro ⟨entry, found, is⟩
    have member := List.mem_of_find?_eq_some found
    have same := List.find?_some found
    exact ⟨entry, member, (same_iff entry member).mp same, is⟩
  · rintro ⟨entry, member, same, is⟩
    cases found : entries.toList.find? fun entry => entry.1.sameKey key with
    | none =>
        have missed := List.find?_eq_none.mp found entry member
        exact absurd ((same_iff entry member).mpr same) missed
    | some first =>
        have inside := List.mem_of_find?_eq_some found
        have also := List.find?_some found
        have one : first = entry := List.inj_on_of_nodup_map table.nodup inside member
          (((same_iff first inside).mp also).trans same.symm)
        exact ⟨entry, congrArg some one, is⟩

theorem covers (table : entries.IsTable) (size : entries.size = others.size)
    (inside : ∀ entry ∈ entries.toList, ∃ found ∈ others.toList, found.1.mark = entry.1.mark) :
    ∀ entry ∈ others.toList, ∃ found ∈ entries.toList, found.1.mark = entry.1.mark := by
  have among : entries.toList.map (fun entry => entry.1.mark) ⊆
      others.toList.map fun entry => entry.1.mark := by
    intro mark member
    obtain ⟨entry, there, rfl⟩ := List.mem_map.mp member
    obtain ⟨found, present, same⟩ := inside entry there
    exact List.mem_map.mpr ⟨found, present, same⟩
  have perm := (table.nodup.subperm among).perm_of_length_le (by simp [size])
  intro entry member
  obtain ⟨found, there, same⟩ :=
    List.mem_map.mp (perm.mem_iff.mpr (List.mem_map_of_mem member))
  exact ⟨found, there, same⟩

theorem equalMaps_eq_true {test : Value → Value → Except Failure Bool} (table : entries.IsTable)
    (other : others.IsTable) :
    Store.equalMaps test entries others = .ok true ↔ entries.size = others.size ∧
      ∀ entry ∈ entries.toList, ∃ found ∈ others.toList,
        found.1.mark = entry.1.mark ∧ Store.Passes test found.2 entry.2 := by
  rw [Store.equalMaps_eq_true]
  refine and_congr_right fun _ => forall₂_congr fun entry member => ?_
  have bound (v : Value) := other.get?_eq_some (v := v) (table.atoms entry member)
  constructor
  · rintro ⟨v, get, passes⟩
    obtain ⟨found, there, same, rfl⟩ := (bound v).mp get
    exact ⟨found, there, same, passes⟩
  · rintro ⟨found, there, same, passes⟩
    exact ⟨found.2, (bound found.2).mpr ⟨found, there, same, rfl⟩, passes⟩

section
variable {test : Value → Value → Except Failure Bool}

theorem equalMaps_symm (table : entries.IsTable) (other : others.IsTable)
    (step : ∀ one ∈ entries.toList, ∀ two ∈ others.toList,
      Store.Passes test two.2 one.2 → Store.Passes test one.2 two.2)
    (equal : Store.equalMaps test entries others = .ok true) :
    Store.equalMaps test others entries = .ok true := by
  rw [table.equalMaps_eq_true other] at equal
  rw [other.equalMaps_eq_true table]
  obtain ⟨size, bound⟩ := equal
  refine ⟨size.symm, fun entry member => ?_⟩
  obtain ⟨found, there, same⟩ := table.covers size
    (fun entry member => (bound entry member).imp fun _ => .imp_right And.left) entry member
  obtain ⟨counterpart, present, also, passes⟩ := bound found there
  obtain rfl := List.inj_on_of_nodup_map other.nodup present member (also.trans same)
  exact ⟨found, there, same, step found there _ present passes⟩

theorem equalMaps_trans {last : Entries} (table : entries.IsTable) (other : others.IsTable)
    (third : last.IsTable)
    (step : ∀ one ∈ entries.toList, ∀ two ∈ others.toList, ∀ three ∈ last.toList,
      Store.Passes test three.2 two.2 → Store.Passes test two.2 one.2 →
        Store.Passes test three.2 one.2)
    (equal : Store.equalMaps test entries others = .ok true)
    (also : Store.equalMaps test others last = .ok true) :
    Store.equalMaps test entries last = .ok true := by
  rw [table.equalMaps_eq_true other] at equal
  rw [other.equalMaps_eq_true third] at also
  rw [table.equalMaps_eq_true third]
  refine ⟨equal.1.trans also.1, fun entry member => ?_⟩
  obtain ⟨found, there, same, passes⟩ := equal.2 entry member
  obtain ⟨beyond, present, more, later⟩ := also.2 found there
  exact ⟨beyond, present, more.trans same,
    step entry member found there beyond present later passes⟩

end

end Entries.IsTable

/-! ## Plain data -/

namespace Holds
variable {store : Store} {v : Value} {ref : Nat} {data : Plain}

theorem isPlain (held : Holds store v data) : v.IsPlain := by
  cases held with
  | atom a => cases a <;> trivial
  | array | map => trivial

theorem items (held : Holds store (.array ref) data) :
    ∃ items, data = .array items ∧
      ∀ v ∈ (store.array ref).toList, ∃ item ∈ items, Holds store v item := by
  generalize is : Value.array ref = container at held
  cases held with
  | atom a => cases a <;> cases is
  | map => cases is
  | @array _ values items cell each =>
      cases is
      have same : store.array ref = values := by simp [Store.array, cell]
      refine ⟨items, rfl, fun v member => ?_⟩
      rw [same] at member
      exact exists_of_forall₂ each v member

theorem entries (held : Holds store (.map ref) data) :
    (store.map ref).IsTable ∧ ∃ entries, data = .map entries ∧
      ∀ entry ∈ (store.map ref).toList, ∃ item ∈ entries, HoldsEntry store entry item := by
  generalize is : Value.map ref = container at held
  cases held with
  | atom a => cases a <;> cases is
  | array => cases is
  | @map _ found entries cell each different =>
      cases is
      have same : store.map ref = found := by simp [Store.map, cell]
      rw [same]
      have counterpart := exists_of_forall₂ each
      have keys : found.toList.map (·.1) = entries.map fun entry => entry.1.value := by
        refine List.forall₂_eq_eq_eq ▸ List.forall₂_map_left_iff.mpr ?_
        refine List.forall₂_map_right_iff.mpr (each.imp ?_)
        rintro _ _ ⟨key, -⟩
        rfl
      refine ⟨⟨fun entry member => ?_, ?_⟩, entries, rfl, counterpart⟩
      · obtain ⟨item, -, ⟨key, -⟩⟩ := counterpart entry member
        cases key <;> trivial
      · have apart : (entries.map fun entry => entry.1.value).Pairwise fun first second =>
            first.sameKey second = false := List.pairwise_map.mpr different
        rw [← keys] at apart
        exact List.pairwise_map.mp apart

end Holds

def Atom.Known : Atom → Prop
  | number n => n.view ≠ .nan
  | _ => True

namespace Store

/-- Whether a value holds plain data in which every number is one. -/
def Comparable (store : Store) (v : Value) : Prop :=
  ∃ data, Holds store v data ∧ ∀ a ∈ data.atoms, a.Known

variable {store : Store}

namespace Comparable
variable {v : Value} {ref : Nat}

theorem isPlain (comparable : store.Comparable v) : v.IsPlain := by
  obtain ⟨data, held, -⟩ := comparable
  exact held.isPlain

theorem known {n : Number} (comparable : store.Comparable (.number n)) : n.view ≠ .nan := by
  obtain ⟨data, held, known⟩ := comparable
  generalize is : Value.number n = v at held
  cases held with
  | atom a =>
      cases a <;> cases is
      exact known (.number n) (by simp [Plain.atoms])
  | array | map => cases is

theorem item (comparable : store.Comparable (.array ref)) :
    ∀ v ∈ (store.array ref).toList, store.Comparable v := by
  obtain ⟨data, held, known⟩ := comparable
  obtain ⟨items, rfl, each⟩ := held.items
  intro v member
  obtain ⟨item, inside, itself⟩ := each v member
  refine ⟨item, itself, fun a among => known a ?_⟩
  rw [Plain.atoms, Plain.itemAtoms_eq_flatMap]
  exact List.mem_flatMap.mpr ⟨item, inside, among⟩

theorem isTable (comparable : store.Comparable (.map ref)) : (store.map ref).IsTable := by
  obtain ⟨data, held, -⟩ := comparable
  exact held.entries.1

theorem entry (comparable : store.Comparable (.map ref)) :
    ∀ entry ∈ (store.map ref).toList, store.Comparable entry.2 := by
  obtain ⟨data, held, known⟩ := comparable
  obtain ⟨-, entries, rfl, each⟩ := held.entries
  intro entry member
  obtain ⟨item, inside, ⟨key, itself⟩⟩ := each entry member
  refine ⟨_, itself, fun a among => known a ?_⟩
  exact Plain.mem_entryAtoms.mpr ⟨_, inside, .inr among⟩

end Comparable

/-! ## The equivalence -/

theorem equalWithin_cases {left right : Value} (one : store.Comparable left)
    (other : store.Comparable right) :
    (∃ ref more, left = .array ref ∧ right = .array more) ∨
      (∃ ref more, left = .map ref ∧ right = .map more) ∨
        ∀ depth, store.equalWithin (depth + 1) left right = .ok (left.sameKey right) := by
  have leftPlain := one.isPlain
  have rightPlain := other.isPlain
  cases left <;> first | exact leftPlain.elim | skip
  all_goals cases right <;> first | exact rightPlain.elim | skip
  case array.array => exact .inl ⟨_, _, rfl, rfl⟩
  case map.map => exact .inr (.inl ⟨_, _, rfl, rfl⟩)
  case number.number a b =>
    refine .inr (.inr fun depth => ?_)
    show Except.ok (a.equal b) = .ok (a.same b)
    rw [Number.same, beq_eq_false_iff_ne.mpr one.known, Bool.false_and, Bool.or_false]
  all_goals exact .inr (.inr fun depth => rfl)

theorem passes_elementWithin {depth : Nat} {a b : Value} :
    Passes (store.elementWithin depth) a b ↔
      a.sameKey b = true ∨ Passes (store.equalWithin depth) a b := by
  unfold Passes elementWithin
  split
  case isTrue same => exact ⟨fun _ => .inl same, fun _ => rfl⟩
  case isFalse other => exact ⟨.inr, (·.resolve_left other)⟩

theorem elementWithin_self (depth : Nat) (v : Value) : Passes (store.elementWithin depth) v v :=
  passes_elementWithin.mpr (.inl v.sameKey_self)

theorem equalWithin_of_sameKey {a b : Value} (one : store.Comparable a) (other : store.Comparable b)
    (same : a.sameKey b = true) (depth : Nat) : Passes (store.equalWithin (depth + 1)) a b := by
  rcases equalWithin_cases one other with ⟨ref, more, rfl, rfl⟩ | ⟨ref, more, rfl, rfl⟩ | leaf
  · obtain rfl : ref = more := by simpa [Value.sameKey] using same
    rw [Passes, equalWithin_array, equalRows_eq_true, List.forall₂_same]
    exact fun v _ => elementWithin_self depth v
  · obtain rfl : ref = more := by simpa [Value.sameKey] using same
    have table := one.isTable
    rw [Passes, equalWithin_map, table.equalMaps_eq_true table]
    exact ⟨rfl, fun entry member => ⟨entry, member, rfl, elementWithin_self depth _⟩⟩
  · rw [Passes, leaf, same]

theorem sameKey_symm {a b : Value} (one : a.IsPlain) (other : b.IsPlain)
    (same : a.sameKey b = true) : b.sameKey a = true :=
  (Value.sameKey_iff other one).mpr ((Value.sameKey_iff one other).mp same).symm

theorem sameKey_trans {a b c : Value} (first : a.IsPlain) (second : b.IsPlain) (third : c.IsPlain)
    (same : a.sameKey b = true) (also : b.sameKey c = true) : a.sameKey c = true :=
  (Value.sameKey_iff first third).mpr
    (((Value.sameKey_iff first second).mp same).trans ((Value.sameKey_iff second third).mp also))

theorem elementWithin_symm {depth : Nat} {a b : Value} (one : store.Comparable a)
    (other : store.Comparable b)
    (inner : Passes (store.equalWithin depth) a b → Passes (store.equalWithin depth) b a)
    (equal : Passes (store.elementWithin depth) a b) : Passes (store.elementWithin depth) b a := by
  rw [passes_elementWithin] at equal ⊢
  exact equal.imp (sameKey_symm one.isPlain other.isPlain) inner

theorem elementWithin_trans {depth : Nat} {a b c : Value} (first : store.Comparable a)
    (second : store.Comparable b) (third : store.Comparable c)
    (inner : Passes (store.equalWithin depth) a b → Passes (store.equalWithin depth) b c →
      Passes (store.equalWithin depth) a c)
    (equal : Passes (store.elementWithin depth) a b)
    (also : Passes (store.elementWithin depth) b c) : Passes (store.elementWithin depth) a c := by
  rw [passes_elementWithin] at equal also ⊢
  cases depth with
  | zero =>
      -- At no depth there is nothing to compare but keys.
      have same : a.sameKey b = true := equal.resolve_right nofun
      have more : b.sameKey c = true := also.resolve_right nofun
      exact .inl (sameKey_trans first.isPlain second.isPlain third.isPlain same more)
  | succ depth =>
      refine .inr (inner ?_ ?_)
      · exact equal.elim (equalWithin_of_sameKey first second · depth) id
      · exact also.elim (equalWithin_of_sameKey second third · depth) id

theorem equalWithin_symm {depth : Nat} {a b : Value} (one : store.Comparable a)
    (other : store.Comparable b) (equal : Passes (store.equalWithin depth) a b) :
    Passes (store.equalWithin depth) b a := by
  induction depth generalizing a b with
  | zero => cases equal
  | succ depth ih =>
      have element {a b : Value} (one : store.Comparable a) (other : store.Comparable b) :=
        elementWithin_symm one other (ih one other)
      rcases equalWithin_cases one other with
        ⟨ref, more, rfl, rfl⟩ | ⟨ref, more, rfl, rfl⟩ | leaf
      · rw [Passes, equalWithin_array, equalRows_eq_true] at equal ⊢
        exact List.Forall₂.flip (forall₂_of_mem equal fun a inside b member =>
          element (one.item a inside) (other.item b member))
      · rw [Passes, equalWithin_map] at equal ⊢
        exact one.isTable.equalMaps_symm other.isTable (fun entry inside found member =>
          element (other.entry found member) (one.entry entry inside)) equal
      · rw [Passes, leaf] at equal
        have same := sameKey_symm one.isPlain other.isPlain (Except.ok.inj equal)
        exact equalWithin_of_sameKey other one same depth

theorem forall₂_comp {α β γ : Type} {r : α → β → Prop} {s : β → γ → Prop} {t : α → γ → Prop}
    {as : List α} {bs : List β} {cs : List γ} (first : List.Forall₂ r as bs)
    (second : List.Forall₂ s bs cs)
    (step : ∀ a ∈ as, ∀ b ∈ bs, ∀ c ∈ cs, r a b → s b c → t a c) : List.Forall₂ t as cs := by
  induction first generalizing cs with
  | nil =>
      cases second
      exact .nil
  | cons one _ ih =>
      obtain _ | ⟨two, later⟩ := second
      exact .cons (step _ (by simp) _ (by simp) _ (by simp) one two)
        (ih later fun a inside b member c among =>
          step a (by simp [inside]) b (by simp [member]) c (by simp [among]))

theorem equalWithin_trans {depth : Nat} {a b c : Value} (first : store.Comparable a)
    (second : store.Comparable b) (third : store.Comparable c)
    (equal : Passes (store.equalWithin depth) a b) (also : Passes (store.equalWithin depth) b c) :
    Passes (store.equalWithin depth) a c := by
  induction depth generalizing a b c with
  | zero => cases equal
  | succ depth ih =>
      have element {a b c : Value} (first : store.Comparable a) (second : store.Comparable b)
          (third : store.Comparable c) :=
        elementWithin_trans first second third (ih first second third)
      -- Two arrays are compared by elements, two maps by entries, anything else as keys are. An array
      -- or map that is compared as a key is the same one.
      rcases equalWithin_cases first second with
        ⟨ref, more, rfl, rfl⟩ | ⟨ref, more, rfl, rfl⟩ | leaf
      · rcases equalWithin_cases second third with ⟨_, last, is, rfl⟩ | ⟨_, _, is, -⟩ | leaf
        · cases is
          rw [Passes, equalWithin_array, equalRows_eq_true] at equal also ⊢
          exact forall₂_comp equal also fun a inside b member c among =>
            element (first.item a inside) (second.item b member) (third.item c among)
        · cases is
        · rw [Passes, leaf] at also
          obtain rfl := Value.array_sameKey.mp (Except.ok.inj also)
          exact equal
      · rcases equalWithin_cases second third with ⟨_, _, is, -⟩ | ⟨_, last, is, rfl⟩ | leaf
        · cases is
        · cases is
          rw [Passes, equalWithin_map] at equal also ⊢
          exact first.isTable.equalMaps_trans second.isTable third.isTable
            (fun one inside two member three among =>
              element (third.entry three among) (second.entry two member) (first.entry one inside))
            equal also
        · rw [Passes, leaf] at also
          obtain rfl := Value.map_sameKey.mp (Except.ok.inj also)
          exact equal
      · rw [Passes, leaf] at equal
        have same := Except.ok.inj equal
        rcases equalWithin_cases second third with ⟨_, _, rfl, rfl⟩ | ⟨_, _, rfl, rfl⟩ | leaf
        · obtain rfl := Value.sameKey_array.mp same
          exact also
        · obtain rfl := Value.sameKey_map.mp same
          exact also
        · rw [Passes, leaf] at also
          exact equalWithin_of_sameKey first third (sameKey_trans first.isPlain second.isPlain
            third.isPlain same (Except.ok.inj also)) depth

/-! ## Answers -/

theorem exists_equalRows {test : Value → Value → Except Failure Bool} {as bs : List Value}
    (each : ∀ a ∈ as, ∀ b ∈ bs, ∃ answer, test a b = .ok answer) :
    ∃ answer, equalRows test as bs = .ok answer := by
  unfold equalRows
  split
  case isFalse => exact ⟨false, rfl⟩
  case isTrue same =>
    clear same
    induction as generalizing bs with
    | nil => exact ⟨true, rfl⟩
    | cons a as ih =>
        cases bs with
        | nil => exact ⟨true, rfl⟩
        | cons b bs =>
            obtain ⟨answer, run⟩ := each a (by simp) b (by simp)
            rw [allPairs, run]
            cases answer
            · exact ⟨false, rfl⟩
            · exact ih fun a inside b member => each a (by simp [inside]) b (by simp [member])

theorem exists_equalMaps {test : Value → Value → Except Failure Bool} {entries others : Entries}
    (each : ∀ entry ∈ entries.toList, ∀ found, others.get? entry.1 = some found →
      ∃ answer, test found entry.2 = .ok answer) :
    ∃ answer, equalMaps test entries others = .ok answer := by
  unfold equalMaps
  split
  case isFalse => exact ⟨false, rfl⟩
  case isTrue =>
    generalize entries.toList = rest at each
    induction rest with
    | nil => exact ⟨true, rfl⟩
    | cons entry rest ih =>
        obtain ⟨first, later⟩ := List.forall_mem_cons.mp each
        rw [allEntries]
        cases bound : others.get? entry.1 with
        | none => exact ⟨false, rfl⟩
        | some found =>
            obtain ⟨answer, run⟩ := first found bound
            dsimp only
            rw [run]
            cases answer
            · exact ⟨false, rfl⟩
            · exact ih later

/-- Whether a value holds plain data that is written as a tree of at most some height. -/
def Shallow (store : Store) (depth : Nat) (v : Value) : Prop :=
  ∃ data, Holds store v data ∧ data.tree.height ≤ depth

namespace Shallow
variable {depth ref : Nat} {v : Value}

theorem pos (shallow : store.Shallow depth v) : depth ≠ 0 := by
  rintro rfl
  obtain ⟨data, -, low⟩ := shallow
  cases data <;> cases low

theorem item (shallow : store.Shallow (depth + 1) (.array ref)) :
    ∀ v ∈ (store.array ref).toList, store.Shallow depth v := by
  obtain ⟨data, held, low⟩ := shallow
  obtain ⟨items, rfl, each⟩ := held.items
  intro v member
  obtain ⟨item, inside, itself⟩ := each v member
  refine ⟨item, itself, (Expr.height_le_of_mem ?_).trans (Nat.le_of_succ_le_succ low)⟩
  rw [Plain.itemTrees_eq_map]
  exact List.mem_map_of_mem inside

theorem entry (shallow : store.Shallow (depth + 1) (.map ref)) :
    ∀ entry ∈ (store.map ref).toList, store.Shallow depth entry.2 := by
  obtain ⟨data, held, low⟩ := shallow
  obtain ⟨-, entries, rfl, each⟩ := held.entries
  intro entry member
  obtain ⟨item, inside, ⟨key, itself⟩⟩ := each entry member
  refine ⟨_, itself, (Expr.height_le_of_mem ?_).trans (Nat.le_of_succ_le_succ low)⟩
  exact Plain.mem_entryTrees.mpr ⟨_, inside, .inr rfl⟩

end Shallow

theorem exists_equalWithin {depth : Nat} {a b : Value} (one : store.Comparable a)
    (other : store.Comparable b) (low : store.Shallow depth a ∨ store.Shallow depth b) :
    ∃ answer, store.equalWithin depth a b = .ok answer := by
  induction depth generalizing a b with
  | zero => exact absurd rfl (low.elim Shallow.pos Shallow.pos)
  | succ depth ih =>
      have element {a b : Value} (one : store.Comparable a) (other : store.Comparable b)
          (low : store.Shallow depth a ∨ store.Shallow depth b) :
          ∃ answer, store.elementWithin depth a b = .ok answer := by
        unfold elementWithin
        split
        case isTrue => exact ⟨true, rfl⟩
        case isFalse => exact ih one other low
      rcases equalWithin_cases one other with ⟨ref, more, rfl, rfl⟩ | ⟨ref, more, rfl, rfl⟩ | leaf
      · rw [equalWithin_array]
        exact exists_equalRows fun a inside b member =>
          element (one.item a inside) (other.item b member)
            (low.imp (·.item a inside) (·.item b member))
      · rw [equalWithin_map]
        refine exists_equalMaps fun entry member found bound => ?_
        obtain ⟨counterpart, there, -, rfl⟩ :=
          (other.isTable.get?_eq_some (one.isTable.atoms entry member)).mp bound
        exact element (other.entry _ there) (one.entry entry member)
          (low.symm.imp (·.entry _ there) (·.entry entry member))
      · exact ⟨_, leaf depth⟩

end Store

/-! ## Elements -/

/-- The value, true and false counting as one and zero. -/
def Value.counted : Value → Value
  | .bool b => .int (if b then 1 else 0)
  | v => v

namespace Store
variable {store : Store} {a b : Value}

theorem Comparable.counted (comparable : store.Comparable a) : store.Comparable a.counted := by
  cases a with
  | bool b =>
      exact ⟨.atom (.number (.int (if b then 1 else 0))), .atom (.number _),
        List.forall_mem_singleton.mpr nofun⟩
  | _ => exact comparable

theorem mark_counted (v : Value) : v.counted.mark = v.mark := by
  cases v <;> rfl

theorem isBool_counted (v : Value) : isBool v.counted = false := by
  cases v <;> rfl

theorem equal_eq_true :
    store.equal a b = .ok true ↔
      isBool a = isBool b ∧ Passes (store.equalWithin depthLimits.values) a b := by
  unfold equal Passes
  split
  case isTrue apart => simp_all
  case isFalse alike => simp_all

theorem passes_elementWithin_iff (one : store.Comparable a) (other : store.Comparable b) :
    Passes (store.elementWithin depthLimits.values) a b ↔
      store.equal a.counted b.counted = .ok true := by
  have counted : a.counted.sameKey b.counted = true ↔ a.sameKey b = true := by
    rw [Value.sameKey_iff one.counted.isPlain other.counted.isPlain, mark_counted, mark_counted,
      Value.sameKey_iff one.isPlain other.isPlain]
  obtain ⟨depth, is⟩ : ∃ depth, depthLimits.values = depth + 1 := ⟨_, rfl⟩
  rw [passes_elementWithin, equal_eq_true, isBool_counted, isBool_counted, and_iff_right rfl, is]
  constructor
  · rintro (same | equal)
    · exact equalWithin_of_sameKey one.counted other.counted (counted.mpr same) depth
    · rcases equalWithin_cases one other with ⟨_, _, rfl, rfl⟩ | ⟨_, _, rfl, rfl⟩ | leaf
      · exact equal
      · exact equal
      · rw [Passes, leaf] at equal
        exact equalWithin_of_sameKey one.counted other.counted
          (counted.mpr (Except.ok.inj equal)) depth
  · intro equal
    rcases equalWithin_cases one.counted other.counted with
      ⟨_, _, left, right⟩ | ⟨_, _, left, right⟩ | leaf
    · cases a <;> cases left
      cases b <;> cases right
      exact .inr equal
    · cases a <;> cases left
      cases b <;> cases right
      exact .inr equal
    · rw [Passes, leaf] at equal
      exact .inl (counted.mp (Except.ok.inj equal))

end Store

end ShellLisp
