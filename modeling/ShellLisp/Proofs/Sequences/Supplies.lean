import Mathlib.Data.List.Forall2
import ShellLisp.Evaluation.Elements
import ShellLisp.Proofs.Sequences.Growth

/-!
# What is got by asking for elements

Something that can be asked for elements supplies a list when asking gives the values of that list
one after the other, whatever else happens in between. Each supplier owns the sequences that it
asks itself: nothing else changes these, and it changes no others.
-/

namespace ShellLisp

/-- A way to say what values are that does not depend on lazy sequences. -/
structure Description (D : Type) where
  holds : Store → Value → D → Prop
  grows : ∀ {before after : Store} {v : Value} {d : D}, before.Grows Set.univ after →
    holds before v d → holds after v d
  number : Int → D
  holds_number : ∀ (store : Store) (n : Int), holds store (.int n) (number n)

variable {D σ α : Type} {desc : Description D}

def Description.Lists (desc : Description D) (session : Session) (items : List Value)
    (list : List D) : Prop :=
  List.Forall₂ (desc.holds session.store) items list

namespace Description.Lists
variable {session after : Session} {items others : List Value} {list rest : List D}

theorem grows {changing : Set Nat} (lists : desc.Lists session items list)
    (growing : session.Grows changing after) : desc.Lists after items list :=
  List.Forall₂.imp (fun _ _ => desc.grows growing.extension.store) lists

theorem append (first : desc.Lists session items list) (second : desc.Lists session others rest) :
    desc.Lists session (items ++ others) (list ++ rest) := List.rel_append first second

theorem concat {v : Value} {d : D} (lists : desc.Lists session items list)
    (holds : desc.holds session.store v d) : desc.Lists session (items ++ [v]) (list ++ [d]) :=
  lists.append (.cons holds .nil)

theorem drop (lists : desc.Lists session items list) (count : Nat) :
    desc.Lists session (items.drop count) (list.drop count) := List.forall₂_drop count lists

end Description.Lists

def Session.Present (session : Session) (owned : Set Nat) : Prop :=
  ∀ ref ∈ owned, ref < session.store.sequences.size

/-- Asking gives the elements of a list one after the other, and then nothing if the list is closed.
What is owned may change to some sequences made meanwhile. -/
def Supplies (desc : Description D) (ask : σ → Eval (Option (Value × σ))) (closed : Bool)
    (owned : Set Nat) (session : Session) (state : σ) : List D → Prop
  | [] => session.Present owned ∧ (closed = true → ∀ now, session.Grows ownedᶜ now →
      ∃ after, (ask state).runOn now = (.ok none, after) ∧ now.Grows owned after)
  | d :: rest => session.Present owned ∧ ∀ now, session.Grows ownedᶜ now →
      ∃ v next after later, (ask state).runOn now = (.ok (some (v, next)), after) ∧
        now.Grows owned after ∧ desc.holds after.store v d ∧
        (∀ ref ∈ later, ref ∈ owned ∨ now.store.sequences.size ≤ ref) ∧
        Supplies desc ask closed later after next rest

namespace Supplies
variable {ask : σ → Eval (Option (Value × σ))} {closed : Bool} {owned changing : Set Nat}
  {session later : Session} {state : σ} {list : List D} {d : D}

theorem present (supplies : Supplies desc ask closed owned session state list) :
    session.Present owned := by
  cases list <;> exact supplies.1

/-- What others do in between makes no difference. -/
theorem grows (supplies : Supplies desc ask closed owned session state list)
    (growing : session.Grows ownedᶜ later) : Supplies desc ask closed owned later state list := by
  have still : later.Present owned := fun ref member =>
    Nat.lt_of_lt_of_le (supplies.present ref member) growing.store.more
  cases list with
  | nil =>
      exact ⟨still, fun isClosed now further =>
        supplies.2 isClosed now (growing.trans further fun _ _ member => member)⟩
  | cons d rest =>
      exact ⟨still, fun now further => supplies.2 now (growing.trans further fun _ _ member => member)⟩

/-- Others that own nothing of a supplier do not get in its way. -/
theorem beside {others : Set Nat} (supplies : Supplies desc ask closed owned session state list)
    (growing : session.Grows others later) (apart : ∀ ref ∈ others, ref ∉ owned) :
    Supplies desc ask closed owned later state list :=
  supplies.grows (growing.weaken apart)

theorem next (supplies : Supplies desc ask closed owned session state (d :: list)) :
    ∃ v next after later, (ask state).runOn session = (.ok (some (v, next)), after) ∧
      session.Grows owned after ∧ desc.holds after.store v d ∧
      (∀ ref ∈ later, ref ∈ owned ∨ session.store.sequences.size ≤ ref) ∧
      Supplies desc ask closed later after next list :=
  supplies.2 session (.refl _ session)

theorem stop (supplies : Supplies desc ask true owned session state ([] : List D)) :
    ∃ after, (ask state).runOn session = (.ok none, after) ∧ session.Grows owned after :=
  supplies.2 rfl session (.refl _ session)

end Supplies

/-! ## Going through what is supplied -/

namespace Engine
variable {engine : Engine} {closed : Bool} {owned : Set Nat} {session : Session} {cursor : Cursor}
  {list : List D}

/-- What every step of a walk keeps holds of its end. -/
theorem foldWithin_supplied (step : α → Value → Eval α) (good : Session → α → List D → Prop)
    (supplies : Supplies desc engine.next true owned session cursor list)
    (steps : ∀ now found done v d, d ∈ list → session.Extends now → good now found done →
      desc.holds now.store v d → ∃ found' after, (step found v).runOn now = (.ok found', after) ∧
        now.Grows ∅ after ∧ good after found' (done ++ [d]))
    (stable : ∀ (now after : Session) found done, now.Extends after → good now found done →
      good after found done)
    {bound : Nat} (patient : list.length < bound) {found : α} {done : List D}
    (begins : good session found done) :
    ∃ found' after, (engine.foldWithin step bound cursor found).runOn session =
        (.ok found', after) ∧ session.Grows owned after ∧ good after found' (done ++ list) := by
  induction list generalizing session owned cursor bound found done with
  | nil =>
      obtain ⟨bound, rfl⟩ := Nat.exists_eq_succ_of_ne_zero (Nat.ne_of_gt patient)
      obtain ⟨after, run, growing⟩ := supplies.stop
      refine ⟨found, after, Eval.runOn_bind_ok run _, growing, ?_⟩
      rw [List.append_nil]
      exact stable session after found done growing.extension begins
  | cons d rest ih =>
      obtain ⟨bound, rfl⟩ := Nat.exists_eq_succ_of_ne_zero (Nat.ne_of_gt (Nat.zero_lt_of_lt patient))
      obtain ⟨v, next, between, later, run, growing, holds, fresh, further⟩ := supplies.next
      obtain ⟨found', after, stepped, grew, goes⟩ := steps between found done v d
        (List.mem_cons_self ..) growing.extension
        (stable session between found done growing.extension begins) holds
      -- What the step adds is no part of what the cursor owns, so the rest is still supplied.
      have supplies' := further.beside grew fun _ => False.elim
      obtain ⟨result, last, walked, grown, ends⟩ := ih supplies'
        (fun now found done v d member extended => steps now found done v d
          (List.mem_cons_of_mem _ member) ((growing.andThen grew).extension.trans extended))
        (Nat.lt_of_succ_lt_succ patient) goes
      refine ⟨result, last, ?_, (growing.andThen grew).onward fresh grown, ?_⟩
      · exact (Eval.runOn_bind_ok run _).trans ((Eval.runOn_bind_ok stepped _).trans walked)
      · rwa [List.append_assoc] at ends

theorem collect_supplied (supplies : Supplies desc engine.next true owned session cursor list)
    (patient : list.length < engine.patience) :
    ∃ items after, (engine.collect cursor).runOn session = (.ok items, after) ∧
      session.Grows owned after ∧ desc.Lists after items.toList list := by
  let step (found : Array Value) (element : Value) : Eval (Array Value) :=
    return found.push element
  let good (now : Session) (found : Array Value) (done : List D) : Prop :=
    desc.Lists now found.toList done
  have begins : good session #[] [] := .nil
  refine foldWithin_supplied step good supplies (fun now found done v d _ _ lists holds => ?_)
    (fun now after found done extended lists => lists.grows extended) patient begins
  refine ⟨found.push v, now, rfl, .refl ∅ now, ?_⟩
  show desc.Lists now (found.push v).toList (done ++ [d])
  rw [Array.toList_push]
  exact lists.concat holds

theorem takeElements_supplied (supplies : Supplies desc engine.next closed owned session cursor list)
    {count : Nat} (enough : count ≤ list.length) (found : Array Value) :
    ∃ (items : List Value) (after : Session),
      (engine.takeElements count cursor found).runOn session = (.ok (found ++ items), after) ∧
      session.Grows owned after ∧ desc.Lists after items (list.take count) := by
  induction count generalizing session owned cursor list found with
  | zero => exact ⟨[], session, by simp [takeElements]; rfl, .refl owned session, .nil⟩
  | succ count ih =>
      cases list with
      | nil => cases enough
      | cons d rest =>
          obtain ⟨v, next, between, later, run, growing, holds, fresh, further⟩ := supplies.next
          obtain ⟨items, after, taken, grew, lists⟩ :=
            ih further (Nat.le_of_succ_le_succ enough) (found.push v)
          refine ⟨v :: items, after, ?_, growing.onward fresh grew, ?_⟩
          · exact (Eval.runOn_bind_ok run _).trans (taken.trans (by simp))
          · exact .cons (desc.grows grew.extension.store holds) lists

end Engine

/-! ## Arrays -/

def Description.IsArray (desc : Description D) (session : Session) (v : Value) (list : List D) :
    Prop :=
  ∃ ref items, v = .array ref ∧ session.store.arrays[ref]? = some items ∧
    desc.Lists session items.toList list

theorem Description.Lists.newArray {session : Session} {items : Array Value} {list : List D}
    (lists : desc.Lists session items.toList list) :
    ∃ v after, (Eval.newArray items).runOn session = (.ok v, after) ∧ session.Grows ∅ after ∧
      desc.IsArray after v list := by
  obtain ⟨ref, after, run, there, growing⟩ := Eval.newArray_grows session items
  exact ⟨.array ref, after, run, growing, ref, items, rfl, there, lists.grows growing⟩

/-! ## Values with elements -/

def Description.IsPair (desc : Description D) (session : Session) (entry : Value × Value) (d : D) :
    Prop :=
  ∀ (now : Session) ref, session.Extends now → now.store.arrays[ref]? = some #[entry.1, entry.2] →
    desc.holds now.store (.array ref) d

/-- A value, other than a lazy sequence, that has the elements of a list. -/
inductive Description.Elements (desc : Description D) (session : Session) :
    Value → List D → Prop
  | text {text : String} {list : List D}
      (lists : desc.Lists session (text.toList.map fun c => .string c.toString) list) :
      Elements desc session (.string text) list
  | tuple {parts : List Value} {list : List D} (lists : desc.Lists session parts list) :
      Elements desc session (.tuple parts) list
  | array {ref : Nat} {items : Array Value} {list : List D}
      (there : session.store.arrays[ref]? = some items) (lists : desc.Lists session items.toList list) :
      Elements desc session (.array ref) list
  | map {ref : Nat} {entries : Entries} {list : List D}
      (there : session.store.maps[ref]? = some entries)
      (pairs : List.Forall₂ (desc.IsPair session) entries.toList list) :
      Elements desc session (.map ref) list

namespace Engine
variable {engine : Engine} {session : Session} {list : List D}

/-- What is at a position supplies the elements from there on, when asking for one changes
nothing. -/
theorem supplies_row {items : List Value} (cursor : Nat → Cursor)
    (asks : ∀ now position, session.Extends now → (engine.next (cursor position)).runOn now =
      (.ok (items[position]?.map (·, cursor (position + 1))), now))
    (position : Nat) (lists : desc.Lists session (items.drop position) list) :
    Supplies desc engine.next true ∅ session (cursor position) list := by
  induction list generalizing session position with
  | nil =>
      refine ⟨fun _ => False.elim, fun _ now growing => ⟨now, ?_, .refl ∅ now⟩⟩
      have ended : items[position]? = none := List.getElem?_eq_none
        (List.drop_eq_nil_iff.mp (List.forall₂_nil_right_iff.mp lists))
      rw [asks now position growing.extension, ended]
      rfl
  | cons d rest ih =>
      refine ⟨fun _ => False.elim, fun now growing => ?_⟩
      obtain ⟨v, others, holds, lists', split⟩ := List.forall₂_cons_right_iff.mp lists
      have found : items[position]? = some v := by
        rw [← List.head?_drop, split]
        rfl
      have further : items.drop (position + 1) = others := by
        rw [← List.tail_drop, split]
        rfl
      refine ⟨v, cursor (position + 1), now, ∅, ?_, .refl ∅ now,
        desc.grows growing.extension.store holds, fun _ => False.elim, ?_⟩
      · rw [asks now position growing.extension, found]
        rfl
      · exact ih (fun later position extended =>
          asks later position (growing.extension.trans extended)) _
          (further ▸ Description.Lists.grows lists' growing)

theorem runOn_entryAt {map : Nat} {entries : Entries}
    (there : session.store.maps[map]? = some entries) (position : Nat) :
    (entryAt map position entries.size).runOn session = (.ok entries[position]?, session) := by
  have asked : (Eval.ask fun store => store.map map).runOn session = (.ok entries, session) := by
    show (Except.ok (session.store.map map), session) = _
    rw [Store.map, there]
    rfl
  refine (Eval.runOn_bind_ok asked _).trans ?_
  rw [if_neg (not_not.mpr rfl)]
  rfl

theorem supplies_pairs {ref : Nat} {entries : Entries}
    (there : session.store.maps[ref]? = some entries) (position : Nat)
    (pairs : List.Forall₂ (desc.IsPair session) (entries.toList.drop position) list) :
    Supplies desc engine.next true ∅ session (.pairs ref position entries.size) list := by
  induction list generalizing session position with
  | nil =>
      refine ⟨fun _ => False.elim, fun _ now growing => ⟨now, ?_, .refl ∅ now⟩⟩
      have ended : entries[position]? = none := by
        have short := List.drop_eq_nil_iff.mp (List.forall₂_nil_right_iff.mp pairs)
        simpa using short
      have none := runOn_entryAt (growing.store.maps ref entries there) position
      rw [ended] at none
      exact Eval.runOn_bind_ok none _
  | cons d rest ih =>
      refine ⟨fun _ => False.elim, fun now growing => ?_⟩
      obtain ⟨entry, others, pair, pairs', split⟩ := List.forall₂_cons_right_iff.mp pairs
      have found : entries[position]? = some entry := by
        rw [← Array.getElem?_toList, ← List.head?_drop, split]
        rfl
      have further : entries.toList.drop (position + 1) = others := by
        rw [← List.tail_drop, split]
        rfl
      have some := runOn_entryAt (growing.store.maps ref entries there) position
      rw [found] at some
      obtain ⟨array, after, made, is, grew⟩ := Eval.newArray_grows now #[entry.1, entry.2]
      have extended := growing.extension.trans grew
      refine ⟨.array array, .pairs ref (position + 1) entries.size, after, ∅, ?_, grew,
        pair after array extended is, fun _ => False.elim, ?_⟩
      · exact (Eval.runOn_bind_ok some _).trans (Eval.runOn_bind_ok made _)
      · have later : List.Forall₂ (desc.IsPair after) (entries.toList.drop (position + 1)) rest := by
          rw [further]
          exact pairs'.imp fun _ _ isPair now array more => isPair now array (extended.trans more)
        exact ih (extended.store.maps ref entries there) _ later

end Engine

namespace Description
variable {session : Session} {v : Value} {list : List D}

theorem Elements.supplies (elements : desc.Elements session v list) (engine : Engine) :
    Supplies desc engine.next true ∅ session (Cursor.entries session.store v) list := by
  cases elements with
  | @text text _ lists =>
      exact Engine.supplies_row (fun position => .chars (text.toList.drop position))
        (fun now position _ => by
          rw [List.getElem?_map, ← List.head?_drop, ← List.tail_drop]
          cases text.toList.drop position <;> rfl) 0 lists
  | @tuple parts _ lists =>
      exact Engine.supplies_row (fun position => .items (parts.drop position))
        (fun now position _ => by
          rw [← List.head?_drop, ← List.tail_drop]
          cases parts.drop position <;> rfl) 0 lists
  | @array ref items _ there lists =>
      refine Engine.supplies_row (.elements ref) (fun now position extended => ?_) 0 lists
      show (Except.ok ((now.store.array ref)[position]?.map _), now) = _
      rw [Store.array, extended.store.arrays ref items there, Array.getElem?_toList]
      rfl
  | @map ref entries _ there pairs =>
      show Supplies desc engine.next true ∅ session (.pairs ref 0 (session.store.map ref).size) list
      rw [Store.map, there]
      exact Engine.supplies_pairs there 0 pairs

theorem Elements.isIterable (elements : desc.Elements session v list) : v.isIterable = true := by
  cases elements <;> rfl

theorem IsArray.elements (isArray : desc.IsArray session v list) : desc.Elements session v list := by
  obtain ⟨ref, items, rfl, there, lists⟩ := isArray
  exact .array there lists

end Description

end ShellLisp
