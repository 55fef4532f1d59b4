import Mathlib.Data.List.TakeWhile
import ShellLisp.Proofs.Members.Paths

/-!
# Members that are not there

A path of texts and integers leads through data to what is there, or to null. An index is an
integer, or a text that writes one in decimal digits, and counts from the end when it is negative. A
path fails only where a row is asked for a text that is spelled like an index, digits behind dashes,
and can not be read as an integer. A truth value or a number that is asked for a method of the host is
not followed.
-/

namespace ShellLisp
open Text

/-! ## Indices -/

/-- The number that decimal digits write. -/
def wholeNumber? (digits : List Char) : Option Nat :=
  if digits ≠ [] ∧ digits.all isDecimalDigit = true then some (digitsValue digits) else none

/-- The integer that a text writes: decimal digits, behind a dash or not. -/
def integerOf? : List Char → Option Int
  | '-' :: digits => (wholeNumber? digits).map Int.negOfNat
  | digits => (wholeNumber? digits).map Int.ofNat

/-- Digits of any kind behind any number of dashes, of which no integer can be read: there are too
many dashes or digits, or some digit is not decimal. -/
def Misspelled (text : List Char) : Prop :=
  let digits := text.dropWhile (· = '-')
  digits ≠ [] ∧ digits.all isDigit = true ∧
    (integerOf? text = none ∨ Fault.digitLimit < digits.length)

instance (text : List Char) : Decidable (Misspelled text) := by
  unfold Misspelled
  infer_instance

/-- The element at an index; a negative index counts from the end, the last element being minus
one. -/
def elementAt? {α : Type} (items : List α) (index : Int) : Option α :=
  if 0 ≤ index then items[index.toNat]? else items.reverse[(-index - 1).toNat]?

theorem elementAt?_eq {α : Type} (items : List α) (index : Int) :
    (Member.position? items.length index).bind (items[·]?) = elementAt? items index := by
  unfold Member.position? elementAt?
  split
  · split
    · rfl
    · exact (List.getElem?_eq_none (by omega)).symm
  · split
    · rename_i negative inside
      have position : (↑items.length + index).toNat = items.length - 1 - (-index - 1).toNat := by
        omega
      rw [Option.bind_some, List.getElem?_reverse (by omega), position]
    · exact (List.getElem?_eq_none (by simp; omega)).symm

theorem exists_dashes (text : List Char) :
    ∃ dashes, text = List.replicate dashes '-' ++ text.dropWhile (· = '-') := by
  refine ⟨(text.takeWhile (· = '-')).length, ?_⟩
  have same : text.takeWhile (· = '-') =
      List.replicate (text.takeWhile (· = '-')).length '-' :=
    List.eq_replicate_iff.mpr ⟨rfl, fun c member => by simpa using List.mem_takeWhile_imp member⟩
  rw [← same, List.takeWhile_append_dropWhile]

theorem wholeNumber?_dash (digits : List Char) : wholeNumber? ('-' :: digits) = none := by
  have mark : isDecimalDigit '-' = false := by decide
  simp [wholeNumber?, mark]

theorem integerOf?_dashes {digits : List Char} (noDash : digits.head? ≠ some '-') (dashes : Nat) :
    integerOf? (List.replicate dashes '-' ++ digits) =
      if 1 < dashes then none else (wholeNumber? digits).map (Binary64.signed (dashes = 1)) := by
  match dashes with
  | 0 =>
      rw [List.replicate_zero, List.nil_append, if_neg (Nat.not_lt_zero 1), integerOf?]
      · rfl
      · rintro rest rfl
        exact noDash rfl
  | 1 =>
      show (wholeNumber? digits).map Int.negOfNat = _
      rw [if_neg (Nat.lt_irrefl 1)]
      exact congrArg (Option.map · (wholeNumber? digits)) (funext fun _ => Int.negOfNat_eq)
  | more + 2 =>
      rw [if_pos (by omega), List.replicate_succ, List.cons_append, integerOf?,
        List.replicate_succ, List.cons_append, wholeNumber?_dash]
      rfl

theorem length_takeWhile_lt_iff {p : Char → Bool} {text : List Char} :
    (text.takeWhile p).length < text.length ↔ text.all p = false := by
  rw [Bool.eq_false_iff, ne_eq, List.all_eq_true, ← List.takeWhile_eq_self_iff]
  have start : text.takeWhile p <+: text := List.takeWhile_prefix p
  refine ⟨fun shorter same => ?_, fun other => ?_⟩
  · exact Nat.lt_irrefl _ (same ▸ shorter)
  · exact Nat.lt_of_le_of_ne start.length_le fun same => other (start.eq_of_length same)

namespace Member

/-- What a key spells is the integer that it writes, if it writes one, unless it is misspelled; then
it can not be read. -/
theorem spelledIndex_cases (key : String) :
    (Misspelled key.toList ∧
        ∃ fault : Fault, fault.kind = .value ∧ spelledIndex key = .error fault) ∨
      ¬Misspelled key.toList ∧ spelledIndex key = .ok (integerOf? key.toList) := by
  obtain ⟨dashes, split⟩ := exists_dashes key.toList
  have noDash : (key.toList.dropWhile (· = '-')).head? ≠ some '-' := fun first => by
    have stopped := List.head?_dropWhile_not (fun c => decide (c = '-')) key.toList
    simp [first] at stopped
  have written := integerOf?_dashes noDash dashes
  rw [← split] at written
  have counted : key.length - (key.toList.dropWhile (· = '-')).length = dashes := by
    have length := congrArg List.length split
    rw [List.length_append, List.length_replicate, String.length_toList] at length
    omega
  generalize result : spelledIndex key = found
  unfold spelledIndex trimStart at result
  simp only [counted] at result
  simp only [Misspelled, written]
  generalize key.toList.dropWhile (· = '-') = digits at result
  have enough : (digits.takeWhile isDecimalDigit).length ≤ digits.length :=
    (List.takeWhile_prefix isDecimalDigit).length_le
  -- The faults are tried in the order in which reading the key can meet them.
  split at result
  case isTrue plain =>
    subst result
    have noNumber : wholeNumber? digits = none := by
      rw [wholeNumber?, if_neg]
      rintro ⟨present, decimal⟩
      have digit : digits.all isDigit = true := List.all_eq_true.mpr fun c member =>
        isDigit_of_isDecimalDigit (List.all_eq_true.mp decimal c member)
      simp [present, digit] at plain
    refine .inr ⟨fun ⟨present, digit, _⟩ => by simp [present, digit] at plain, ?_⟩
    simp [noNumber]
  case isFalse spelled =>
  obtain ⟨present, digit⟩ : digits ≠ [] ∧ digits.all isDigit = true := by
    rw [not_or] at spelled
    exact ⟨spelled.1, by simpa using spelled.2⟩
  split at result
  case isTrue many =>
    exact .inl ⟨⟨present, digit, .inl (if_pos many)⟩, _, rfl, result.symm⟩
  case isFalse few =>
  rw [if_neg few]
  split at result
  case isTrue long =>
    exact .inl ⟨⟨present, digit, .inr (Nat.lt_of_lt_of_le long enough)⟩, _, rfl, result.symm⟩
  case isFalse short =>
  split at result
  case isTrue other =>
    have noNumber : wholeNumber? digits = none := by
      simp [wholeNumber?, length_takeWhile_lt_iff.mp other]
    exact .inl ⟨⟨present, digit, .inl (by rw [noNumber]; rfl)⟩, _, rfl, result.symm⟩
  case isFalse decimal =>
    have number : wholeNumber? digits = some (digitsValue digits) := by
      have all : digits.all isDecimalDigit = true := by
        simpa [length_takeWhile_lt_iff] using decimal
      simp [wholeNumber?, all, present]
    rw [number]
    refine .inr ⟨fun ⟨_, _, unreadable⟩ => ?_, result.symm⟩
    rcases unreadable with none | long
    · cases none
    · omega

end Member

/-! ## One step -/

/-- The index that a key means, if it means one. -/
def Value.index? : Value → Option Int
  | .number (.int n) => some n
  | .string text => integerOf? text.toList
  | _ => none

def Value.IsMisspelled : Value → Prop
  | .string text => Misspelled text.toList
  | _ => False

def Value.IsStep : Value → Prop
  | .number (.int _) | .string _ => True
  | _ => False

def Value.isRow : Value → Bool
  | .array _ | .tuple _ | .string _ => true
  | _ => false

namespace Store

/-- What a key leads to from a value: the value bound to it in a map, the element at the index that
it means in an array, a tuple or a text, or a visible attribute; and else null. -/
def member (store : Store) (container key : Value) : Value :=
  match container with
  | .null => .null
  | .map ref => ((store.map ref).get? key).getD .null
  | .array ref => (key.index?.bind (elementAt? (store.array ref).toList)).elim .null id
  | .tuple items => (key.index?.bind (elementAt? items)).elim .null id
  | .string text =>
      (key.index?.bind (elementAt? text.toList)).elim .null fun c => .string c.toString
  | other =>
      match key with
      | .string name =>
          if Member.isHidden name then .null
          else (Member.replacedPart? store other name).getD (Member.attributeOf store other name)
      | _ => .null

end Store

namespace Member
variable {store : Store} {container key : Value}

theorem index?_of_spelled (spelled : ¬key.IsMisspelled) : index? key = .ok key.index? := by
  cases key with
  | number n => cases n <;> rfl
  | string text =>
      rcases spelledIndex_cases text with ⟨wrong, -⟩ | ⟨-, same⟩
      · exact absurd wrong spelled
      · exact same
  | _ => rfl

theorem element_of_spelled {α : Type} (items : List α) (value : α → Value)
    (spelled : ¬key.IsMisspelled) :
    element items value key = .ok ((key.index?.bind (elementAt? items)).elim .null value) := by
  rw [element, index?_of_spelled spelled]
  cases key.index? with
  | none => rfl
  | some index => rw [Option.bind_some, ← elementAt?_eq]; rfl

theorem element_of_misspelled {α : Type} (items : List α) (value : α → Value)
    (misspelled : key.IsMisspelled) :
    ∃ fault : Fault, fault.kind = .value ∧ element items value key = .error fault := by
  cases key with
  | string text =>
      rcases spelledIndex_cases text with ⟨-, fault, kind, failed⟩ | ⟨right, -⟩
      · exact ⟨fault, kind, by rw [element, index?, failed]; rfl⟩
      · exact absurd misspelled right
  | _ => exact misspelled.elim

theorem checkKey_of_isStep (plain : key.IsStep) : key.checkKey = .ok () := by
  cases key with
  | number | string => rfl
  | _ => exact plain.elim

/-- A row is asked for an index that is none. -/
def StumblesAt (container key : Value) : Prop := container.isRow = true ∧ key.IsMisspelled

/-- A value is asked for a part of the evaluator or a method of the host. -/
def EntersAt (container : Value) : Value → Prop
  | .string name => isInternal container name = true
  | _ => False

theorem read_of_spelled (plain : key.IsStep) (spelled : ¬StumblesAt container key)
    (followed : ¬EntersAt container key) :
    read store container key = .ok (store.member container key) := by
  have named (row : container.isRow = true) : ¬key.IsMisspelled := not_and.mp spelled row
  cases container with
  | array ref => exact element_of_spelled _ id (named rfl)
  | tuple items => exact element_of_spelled _ id (named rfl)
  | string text => exact element_of_spelled _ _ (named rfl)
  | null => rfl
  | map ref =>
      unfold read
      rw [checkKey_of_isStep plain]
      rfl
  | _ =>
      cases key with
      | number => rfl
      | string name =>
          dsimp only [read, Store.member]
          rw [if_neg (show ¬isInternal _ name = true from followed)]
          split
          · rfl
          · cases replacedPart? store _ name <;> rfl
      | _ => exact plain.elim

theorem read_of_misspelled (store : Store) (row : container.isRow = true)
    (misspelled : key.IsMisspelled) :
    ∃ fault : Fault, fault.kind = .value ∧ read store container key = .error fault := by
  cases container with
  | array ref => exact element_of_misspelled _ _ misspelled
  | tuple items => exact element_of_misspelled _ _ misspelled
  | string text => exact element_of_misspelled _ _ misspelled
  | _ => cases row

end Member

/-! ## Paths -/

namespace Member
variable {session : Session} {root : Value} {keys : List Value}

/-- Some step along a path is taken from a value and with a key that are so related. -/
def Along (step : Value → Value → Prop) (store : Store) (root : Value) (keys : List Value) : Prop :=
  ∃ before key after, keys = before ++ key :: after ∧ step (before.foldl store.member root) key

theorem along_cons {step : Value → Value → Prop} {store : Store} {root key : Value}
    {rest : List Value} :
    Along step store root (key :: rest) ↔
      step root key ∨ Along step store (store.member root key) rest := by
  constructor
  · rintro ⟨before, found, after, split, taken⟩
    cases before with
    | nil =>
        obtain ⟨rfl, -⟩ := List.cons.inj split
        exact .inl taken
    | cons first before =>
        obtain ⟨rfl, rfl⟩ := List.cons.inj split
        exact .inr ⟨before, found, after, rfl, taken⟩
  · rintro (taken | ⟨before, found, after, rfl, taken⟩)
    · exact ⟨[], key, rest, rfl, taken⟩
    · exact ⟨key :: before, found, after, rfl, taken⟩

theorem not_along_nil {step : Value → Value → Prop} {store : Store} {root : Value} :
    ¬Along step store root [] := by
  rintro ⟨before, key, after, split, -⟩
  simp at split

/-- Along a path a row is asked for a misspelled index. -/
def Stumbles : Store → Value → List Value → Prop := Along StumblesAt

/-- Along a path a value is asked for a part of the evaluator or a method of the host. -/
def Enters : Store → Value → List Value → Prop := Along EntersAt

theorem runOn_follow_cons (root key : Value) (rest : List Value) (last : Option Value)
    (session : Session) :
    (follow root (key :: rest) last).runOn session =
      match read session.store root key with
      | .ok next => (follow next rest (some root)).runOn session
      | .error fault => (.error (.fault fault), session) := by
  show (do
    let next ← Eval.lift (read (← get).store root key)
    follow next rest (some root) : Eval _).runOn session = _
  rw [Eval.runOn_get_bind]
  cases read session.store root key <;> rfl

theorem follow_of_spelled (plain : ∀ key ∈ keys, key.IsStep)
    (spelled : ¬Stumbles session.store root keys) (followed : ¬Enters session.store root keys)
    (last : Option Value) :
    ∃ parent, (follow root keys last).runOn session =
      (.ok (keys.foldl session.store.member root, parent), session) := by
  induction keys generalizing root last with
  | nil => exact ⟨last, rfl⟩
  | cons key rest ih =>
      obtain ⟨first, others⟩ := List.forall_mem_cons.mp plain
      rw [Stumbles, along_cons, not_or] at spelled
      rw [Enters, along_cons, not_or] at followed
      rw [runOn_follow_cons, read_of_spelled first spelled.1 followed.1]
      exact ih others spelled.2 followed.2 (some root)

theorem follow_of_misspelled (plain : ∀ key ∈ keys, key.IsStep)
    (stumbles : Stumbles session.store root keys) (followed : ¬Enters session.store root keys)
    (last : Option Value) :
    ∃ fault : Fault, fault.kind = .value ∧
      (follow root keys last).runOn session = (.error (.fault fault), session) := by
  induction keys generalizing root last with
  | nil => exact absurd stumbles not_along_nil
  | cons key rest ih =>
      obtain ⟨first, others⟩ := List.forall_mem_cons.mp plain
      rw [Enters, along_cons, not_or] at followed
      rw [runOn_follow_cons]
      by_cases here : StumblesAt root key
      · obtain ⟨fault, kind, failed⟩ := read_of_misspelled session.store here.1 here.2
        exact ⟨fault, kind, by rw [failed]⟩
      · rw [read_of_spelled first here followed.1]
        exact ih others ((along_cons.mp stumbles).resolve_left here) followed.2 (some root)

end Member

/-! ## Data -/

namespace Store

/-- Nothing but atoms, arrays and maps can be got at from a value. -/
def IsData (store : Store) (root : Value) : Prop :=
  ∀ v, store.Reaches (.value root) (.value v) → v.IsPlain

variable {store : Store} {container content : Value}

theorem IsData.part (data : store.IsData container)
    (isPart : Member.IsPart store container content) : store.IsData content := by
  rcases isPart with inside | atom
  · exact fun v reached => data v (.head (.content inside) reached)
  · intro v reached
    rcases Relation.ReflTransGen.cases_head reached with same | ⟨next, leads, -⟩
    · cases same
      exact atom.isPlain
    · cases leads with
      | content inside => simp [contents_atom atom] at inside
      | defining => exact atom.elim

theorem IsData.foldl_member {keys : List Value} (plain : ∀ key ∈ keys, key.IsStep)
    {root : Value} (spelled : ¬Member.Stumbles store root keys)
    (followed : ¬Member.Enters store root keys) (data : store.IsData root) :
    store.IsData (keys.foldl store.member root) := by
  induction keys generalizing root with
  | nil => exact data
  | cons key rest ih =>
      obtain ⟨first, others⟩ := List.forall_mem_cons.mp plain
      rw [Member.Stumbles, Member.along_cons, not_or] at spelled
      rw [Member.Enters, Member.along_cons, not_or] at followed
      have read : Member.read store root key = .ok (store.member root key) :=
        Member.read_of_spelled first spelled.1 followed.1
      exact ih others spelled.2 followed.2 (data.part (Member.isPart_read read))

end Store

namespace Core
variable {session : Session} {root : Value} {keys : List Value}

/-- A path of texts and integers leads through data to what its steps lead to, one after the other,
each to what is there or to null. It fails exactly if along it a row is asked for a text that is
spelled like an index and is none, and the session then stays as it was. A path that asks a truth value
or a number for a method of the host is not followed. -/
theorem get_missing (data : session.store.IsData root) (nonempty : keys ≠ [])
    (plain : ∀ key ∈ keys, key.IsStep) (followed : ¬Member.Enters session.store root keys)
    (engine : Engine) (place : Location) :
    (¬Member.Stumbles session.store root keys →
      (LibraryFunction.call engine place (root :: keys) (.core .get)).runOn session =
        (.ok (keys.foldl session.store.member root), session)) ∧
    (Member.Stumbles session.store root keys → ∃ fault : Fault, fault.kind = .value ∧
      (LibraryFunction.call engine place (root :: keys) (.core .get)).runOn session =
        (.error (.fault fault), session)) := by
  obtain ⟨path, last, rfl⟩ : ∃ path last, keys = path ++ [last] :=
    ⟨_, _, (List.dropLast_concat_getLast nonempty).symm⟩
  rw [runOn_get]
  refine ⟨fun spelled => ?_, fun stumbles => ?_⟩
  · obtain ⟨parent, found⟩ := Member.follow_of_spelled plain spelled followed none
    refine runOn_followAndBind (fun function host => ?_) found
    have is := data.foldl_member plain spelled followed _ .refl
    rw [host] at is
    exact is.elim
  · obtain ⟨fault, kind, failed⟩ := Member.follow_of_misspelled plain stumbles followed none
    refine ⟨fault, kind, ?_⟩
    unfold Member.followAndBind
    rw [Eval.runOn_bind, failed]

theorem shelf_isData : shelf.IsData (.array 0) := by
  intro v reached
  rcases reaches_shelf reached with same | same | ⟨other, same, atom⟩
  · cases same
    trivial
  · cases same
    trivial
  · cases same
    exact atom.isPlain

theorem get_missing_shelf :
    let session : Session :=
      { Session.start .empty [] [] (.recorded [] []) with store := shelf }
    ¬Member.Stumbles shelf (.array 0) [.string "-2", .string "b"] ∧
      ¬Member.Enters shelf (.array 0) [.string "-2", .string "b"] ∧
      (LibraryFunction.call Engine.default ⟨1, 1⟩ [.array 0, .string "-2", .string "b"]
        (.core .get)).runOn session = (.ok .null, session) := by
  intro session
  have spelled : ¬Member.Stumbles shelf (.array 0) [.string "-2", .string "b"] := by
    rw [Member.Stumbles, Member.along_cons, Member.along_cons]
    rintro (⟨-, misspelled⟩ | ⟨row, -⟩ | rest)
    · exact absurd misspelled (show ¬Misspelled "-2".toList by decide)
    · cases row
    · exact Member.not_along_nil rest
  have followed : ¬Member.Enters shelf (.array 0) [.string "-2", .string "b"] := by
    rw [Member.Enters, Member.along_cons, Member.along_cons]
    rintro (first | second | rest)
    · cases first
    · cases second
    · exact Member.not_along_nil rest
  have steps : ∀ key ∈ [Value.string "-2", .string "b"], key.IsStep := by
    simp [Value.IsStep]
  exact ⟨spelled, followed, (@get_missing session (.array 0) _ shelf_isData (List.cons_ne_nil _ _)
    steps followed Engine.default ⟨1, 1⟩).1 spelled⟩

/-- A superscript digit is none of the indices of an array, and asking for it fails. -/
theorem get_superscript_fails :
    let session : Session :=
      { Session.start .empty [] [] (.recorded [] []) with store := shelf }
    shelf.IsData (.array 0) ∧ (Value.string "²").index? = none ∧
      (LibraryFunction.call Engine.default ⟨1, 1⟩ [.array 0, .string "²"] (.core .get)).runOn
        session = (.error (.fault (.invalidInteger (literal "²"))), session) :=
  ⟨shelf_isData, by decide, rfl⟩

end Core

end ShellLisp
