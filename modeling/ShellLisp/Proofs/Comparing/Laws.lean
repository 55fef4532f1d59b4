import ShellLisp.Evaluation
import ShellLisp.Proofs.Comparing.Equality

/-!
# Laws of equality

What `==` answers for plain data, for each pair of values in one session.
-/

namespace ShellLisp

namespace Session

/-- What `==` answers for two values in a session, which it leaves as it was. -/
def Answers (session : Session) (a b : Value) (answer : Bool) : Prop :=
  ∀ engine place, (LibraryFunction.call engine place [a, b] (.core .equal)).runOn session =
    (.ok (.bool answer), session)

variable {session : Session} {a b c : Value} {answer : Bool}

theorem answers_iff : session.Answers a b answer ↔ session.store.equal a b = .ok answer := by
  have run (engine : Engine) (place : Location) :
      (LibraryFunction.call engine place [a, b] (.core .equal)).runOn session =
        ((session.store.equal a b).map .bool, session) := by
    show (do
      let answer ← Eval.read fun store => store.equal a b
      return Value.bool answer : Eval Value).runOn session = _
    rw [Eval.runOn_bind, Eval.runOn_read]
    cases session.store.equal a b <;> rfl
  constructor
  · intro each
    have one := each .default ⟨1, 1⟩
    rw [run] at one
    cases equal : session.store.equal a b with
    | error failure =>
        rw [equal] at one
        cases one
    | ok found =>
        rw [equal] at one
        cases one
        rfl
  · intro equal engine place
    rw [run, equal]
    rfl

/-- Two elements are equal, true and false counting as one and zero. -/
def AnswersCounted (session : Session) (a b : Value) : Prop :=
  session.Answers a.counted b.counted true

theorem passes_iff (one : session.store.Comparable a) (other : session.store.Comparable b) :
    Store.Passes (session.store.elementWithin depthLimits.values) a b ↔
      session.AnswersCounted a b :=
  (Store.passes_elementWithin_iff one other).trans answers_iff.symm

/-- How `==` compares plain data without the number that is none. -/
structure EqualityLaws (session : Session) : Prop where
  reflexive {a : Value} : session.store.Comparable a → session.Answers a a true
  symmetric {a b : Value} : session.store.Comparable a → session.store.Comparable b →
    session.Answers a b true → session.Answers b a true
  transitive {a b c : Value} : session.store.Comparable a → session.store.Comparable b →
    session.store.Comparable c → session.Answers a b true → session.Answers b c true →
    session.Answers a c true
  /-- True and false by themselves equal no number. -/
  apart (b : Bool) (n : Number) :
    session.Answers (.bool b) (.number n) false ∧ session.Answers (.number n) (.bool b) false
  /-- An atom always has an answer: it equals what stands for the same, true and false only each
  itself. -/
  atoms {a b : Value} : session.store.Comparable a → session.store.Comparable b →
    a.IsAtom ∨ b.IsAtom → ∃ answer, session.Answers a b answer ∧
      (answer = true ↔ Store.isBool a = Store.isBool b ∧ a.mark = b.mark)
  mixed (ref other : Nat) :
    session.Answers (.array ref) (.map other) false ∧
      session.Answers (.map ref) (.array other) false
  arrays {ref other : Nat} {answer : Bool} : session.store.Comparable (.array ref) →
    session.store.Comparable (.array other) → session.Answers (.array ref) (.array other) answer →
    (answer = true ↔ List.Forall₂ session.AnswersCounted
      (session.store.array ref).toList (session.store.array other).toList)
  maps {ref other : Nat} {answer : Bool} : session.store.Comparable (.map ref) →
    session.store.Comparable (.map other) → session.Answers (.map ref) (.map other) answer →
    (answer = true ↔ (session.store.map ref).size = (session.store.map other).size ∧
      ∀ entry ∈ (session.store.map ref).toList, ∃ found,
        (session.store.map other).get? entry.1 = some found ∧ session.AnswersCounted found entry.2)
  /-- There is an answer if one of the values is no deeper than the limit. -/
  answers {a b : Value} : session.store.Comparable a → session.store.Comparable b →
    session.store.Shallow depthLimits.values a ∨ session.store.Shallow depthLimits.values b →
    ∃ answer, session.Answers a b answer

end Session

open Session

/-- Plain data is compared by an equivalence relation, arrays element by element and maps key by
key, where true and false count as one and zero among the elements but not by themselves. -/
theorem equalityLaws (session : Session) : session.EqualityLaws where
  reflexive {a} one := by
    obtain ⟨depth, is⟩ : ∃ depth, depthLimits.values = depth + 1 := ⟨_, rfl⟩
    rw [answers_iff, Store.equal_eq_true, is]
    exact ⟨rfl, Store.equalWithin_of_sameKey one one a.sameKey_self depth⟩
  symmetric one other answered := by
    rw [answers_iff, Store.equal_eq_true] at answered ⊢
    exact ⟨answered.1.symm, Store.equalWithin_symm one other answered.2⟩
  transitive first second third answered also := by
    rw [answers_iff, Store.equal_eq_true] at answered also ⊢
    exact ⟨answered.1.trans also.1,
      Store.equalWithin_trans first second third answered.2 also.2⟩
  apart b n := ⟨answers_iff.mpr rfl, answers_iff.mpr rfl⟩
  atoms {a b} one other atom := by
    simp only [answers_iff]
    rcases Store.equalWithin_cases one other with
      ⟨_, _, rfl, rfl⟩ | ⟨_, _, rfl, rfl⟩ | leaf
    · exact (atom.elim id id).elim
    · exact (atom.elim id id).elim
    · obtain ⟨depth, is⟩ : ∃ depth, depthLimits.values = depth + 1 := ⟨_, rfl⟩
      obtain ⟨answer, answered⟩ : ∃ answer, session.store.equal a b = .ok answer := by
        rw [Store.equal, is, leaf]
        split
        · exact ⟨false, rfl⟩
        · exact ⟨a.sameKey b, rfl⟩
      have equal : answer = true ↔ session.store.equal a b = .ok true := by
        rw [answered, Except.ok.injEq]
      refine ⟨answer, answered, ?_⟩
      rw [equal, Store.equal_eq_true, is, Store.Passes, leaf, Except.ok.injEq,
        Value.sameKey_iff one.isPlain other.isPlain]
  mixed ref other := ⟨answers_iff.mpr rfl, answers_iff.mpr rfl⟩
  arrays {ref other answer} one two answered := by
    -- One level more changes no answer, and with it the elements are compared at the limit itself.
    have more := Store.equalWithin_refines _ _ (answers_iff.mp answered)
    have rows : answer = true ↔ List.Forall₂
        (Store.Passes (session.store.elementWithin depthLimits.values))
        (session.store.array ref).toList (session.store.array other).toList := by
      rw [← Store.equalRows_eq_true, ← Store.equalWithin_array, more, Except.ok.injEq]
    rw [rows]
    constructor
    · exact fun each => forall₂_of_mem each fun a inside b member =>
        (passes_iff (one.item a inside) (two.item b member)).mp
    · exact fun each => forall₂_of_mem each fun a inside b member =>
        (passes_iff (one.item a inside) (two.item b member)).mpr
  maps {ref other answer} one two answered := by
    have more := Store.equalWithin_refines _ _ (answers_iff.mp answered)
    have tables : answer = true ↔
        Store.equalMaps (session.store.elementWithin depthLimits.values) (session.store.map ref)
          (session.store.map other) = .ok true := by
      rw [← Store.equalWithin_map, more, Except.ok.injEq]
    rw [tables, Store.equalMaps_eq_true]
    refine and_congr_right fun _ => forall₂_congr fun entry member => exists_congr fun found =>
      and_congr_right fun bound => ?_
    obtain ⟨counterpart, there, -, rfl⟩ :=
      (two.isTable.get?_eq_some (one.isTable.atoms entry member)).mp bound
    exact passes_iff (two.entry _ there) (one.entry entry member)
  answers one other low := by
    obtain ⟨answer, run⟩ := Store.exists_equalWithin one other low
    simp only [answers_iff, Store.equal]
    split
    · exact ⟨false, rfl⟩
    · exact ⟨answer, run⟩

def crates : Store :=
  { Store.empty with arrays := #[#[.bool true], #[.int 1]] }

theorem comparable_crates : crates.Comparable (.array 0) ∧ crates.Comparable (.array 1) := by
  have holds (a : Atom) (ref : Nat) (cell : crates.arrays[ref]? = some #[a.value]) :
      Holds crates (.array ref) (.array [.atom a]) :=
    .array cell (.cons (.atom a) .nil)
  exact ⟨⟨_, holds (.bool true) 0 rfl, List.forall_mem_singleton.mpr trivial⟩,
    ⟨_, holds (.number (.int 1)) 1 rfl, List.forall_mem_singleton.mpr nofun⟩⟩

theorem equalityLaws_crates :
    let session : Session :=
      { Session.start .empty [] [] (.recorded [] []) with store := crates }
    session.Answers (.array 0) (.array 1) true ∧ session.Answers (.array 1) (.array 0) true ∧
      List.Forall₂ session.AnswersCounted [.bool true] [.int 1] := by
  intro session
  have equal : session.Answers (.array 0) (.array 1) true := answers_iff.mpr rfl
  obtain ⟨one, other⟩ := comparable_crates
  exact ⟨equal, (equalityLaws session).symmetric one other equal,
    ((equalityLaws session).arrays one other equal).mp rfl⟩

/-- Two arrays are equal though the only element of the one is not equal to that of the other. -/
theorem equal_crates_apart :
    let session : Session :=
      { Session.start .empty [] [] (.recorded [] []) with store := crates }
    crates.Comparable (.array 0) ∧ crates.Comparable (.array 1) ∧
      session.Answers (.array 0) (.array 1) true ∧
      crates.array 0 = #[.bool true] ∧ crates.array 1 = #[.int 1] ∧
      session.Answers (.bool true) (.int 1) false :=
  ⟨comparable_crates.1, comparable_crates.2, answers_iff.mpr rfl, rfl, rfl, answers_iff.mpr rfl⟩

end ShellLisp
