import ShellLisp.Proofs.Failing.Places
import ShellLisp.Proofs.Interactive.Answers

/-!
# Escape characters in printed values

The character that starts a colour sequence is printed only where a text that is shown has it: not
for numbers, nor between the parts of a value. So a value that shows only texts without it is
printed without it.
-/

namespace ShellLisp
open Text Decimal

def escape : Char := '\x1b'

def Unescaped (text : List Char) : Prop := escape ∉ text

instance : DecidablePred Unescaped := fun text => inferInstanceAs (Decidable (escape ∉ text))

@[simp]
theorem unescaped_nil : Unescaped [] := nofun

@[simp]
theorem unescaped_cons {c : Char} {rest : List Char} :
    Unescaped (c :: rest) ↔ c ≠ escape ∧ Unescaped rest := by
  simp [Unescaped, eq_comm]

@[simp]
theorem unescaped_append {first second : List Char} :
    Unescaped (first ++ second) ↔ Unescaped first ∧ Unescaped second := by
  simp [Unescaped]

theorem Unescaped.of_subset {part text : List Char} (plain : Unescaped text) (inside : part ⊆ text) :
    Unescaped part := fun member => plain (inside member)

theorem unescaped_replicate {c : Char} (other : c ≠ escape) (count : Nat) :
    Unescaped (List.replicate count c) := fun member => other (List.eq_of_mem_replicate member).symm

theorem unescaped_flatMap {text : List Char} {change : Char → List Char}
    (each : ∀ c ∈ text, Unescaped (change c)) : Unescaped (text.flatMap change) := fun member => by
  obtain ⟨c, inside, changed⟩ := List.mem_flatMap.mp member
  exact each c inside changed

theorem unescaped_intercalate {separator : List Char} {parts : List (List Char)}
    (between : Unescaped separator) (each : ∀ part ∈ parts, Unescaped part) :
    Unescaped (separator.intercalate parts) := by
  induction parts with
  | nil => exact unescaped_nil
  | cons part rest ih =>
      obtain ⟨first, others⟩ := List.forall_mem_cons.mp each
      cases rest with
      | nil => simpa using first
      | cons next later =>
          rw [List.intercalate_cons_cons]
          simp [first, between, ih others]

/-! ## Numbers -/

theorem unescaped_toDigits {base : Nat} (large : 1 < base) (n : Nat) :
    Unescaped (Nat.toDigits base n) := by
  have digit : ∀ k : Nat, k.digitChar ≠ escape := fun k => Nat.digitChar_ne _ (by decide)
  induction n using Nat.strongRecOn with
  | ind n ih =>
      rw [Nat.toDigits_eq_if large]
      split
      · simp [digit]
      · rename_i several
        have smaller : n / base < n := Nat.div_lt_self (by omega) large
        simp [digit, ih _ smaller]

theorem unescaped_digitsOf (n : Nat) : Unescaped (digitsOf n) := unescaped_toDigits (by omega) n

theorem unescaped_ofUnits (n : Nat) (unit : Int) : Unescaped (Scientific.ofUnits n unit).digits := by
  refine (unescaped_digitsOf n).of_subset fun c member => ?_
  exact List.mem_reverse.mp ((List.dropWhile_sublist _).subset (List.mem_reverse.mp member))

theorem unescaped_withDigits? {interval : Rounding} {point : Int} {count : Nat}
    {decimal : Scientific} (found : interval.withDigits? point count = some decimal) :
    Unescaped decimal.digits := by
  unfold Rounding.withDigits? at found
  dsimp only at found
  repeat' split at found
  all_goals cases found
  all_goals exact unescaped_ofUnits _ _

theorem unescaped_shortest (mantissa : Nat) (exponent : Int) :
    Unescaped (shortest mantissa exponent).digits := by
  unfold shortest
  dsimp only
  generalize tries : List.map _ (List.range 17) = attempts
  cases found : attempts.findSome? id with
  | none => exact unescaped_ofUnits _ _
  | some decimal =>
      obtain ⟨attempt, among, same⟩ := List.exists_of_findSome?_eq_some found
      rw [← tries] at among
      obtain ⟨shorter, -, tried⟩ := List.mem_map.mp among
      exact unescaped_withDigits? (tried.trans same)

theorem unescaped_positional {decimal : Scientific} (plain : Unescaped decimal.digits) :
    Unescaped (positional decimal) := by
  have zeros (count : Nat) : Unescaped (List.replicate count '0') :=
    unescaped_replicate (by decide) count
  have zero : '0' ≠ escape := by decide
  have point : '.' ≠ escape := by decide
  unfold positional
  dsimp only
  split
  · simp [plain, zeros, zero, point]
  · split
    · simp [plain, zeros, zero, point]
    · simp [plain.of_subset (List.take_subset _ _), plain.of_subset (List.drop_subset _ _), point]

theorem unescaped_exponential {decimal : Scientific} (plain : Unescaped decimal.digits) :
    Unescaped (valueLayout.exponential decimal) := by
  have sign : (if decimal.point - 1 < 0 then '-' else '+') ≠ escape := by split <;> decide
  have mark : valueLayout.exponentMark ≠ escape := by decide
  have exponent : Unescaped (valueLayout.exponentText (decimal.point - 1)) :=
    unescaped_cons.mpr ⟨mark, unescaped_cons.mpr ⟨sign,
      unescaped_append.mpr ⟨unescaped_replicate (by decide) _, unescaped_digitsOf _⟩⟩⟩
  unfold NumberLayout.exponential
  refine unescaped_append.mpr ⟨?_, exponent⟩
  cases shape : decimal.digits with
  | nil => exact unescaped_nil
  | cons first rest =>
      rw [shape] at plain
      cases rest with
      | nil => exact plain
      | cons second rest =>
          simp only [unescaped_cons] at plain ⊢
          exact ⟨plain.1, by decide, plain.2⟩

theorem unescaped_floatText (x : Float) : Unescaped (floatText x).toList := by
  unfold floatText
  cases Binary64.ofFloat x with
  | nan => decide
  | infinite negative => cases negative <;> decide
  | finite negative mantissa exponent =>
      have sign : Unescaped (if negative then "-" else "").toList := by cases negative <;> decide
      have digits := unescaped_shortest mantissa exponent
      rw [NumberLayout.render]
      split
      · rw [String.toList_append]
        exact unescaped_append.mpr ⟨sign, by decide⟩
      · rw [String.toList_append, String.toList_ofList]
        refine unescaped_append.mpr ⟨sign, ?_⟩
        unfold NumberLayout.positive
        split
        · exact unescaped_positional digits
        · exact unescaped_exponential digits

theorem unescaped_numberText {n : Number} {text : String} (printed : n.text = .ok text) :
    Unescaped text.toList := by
  cases n with
  | float x =>
      cases printed
      exact unescaped_floatText x
  | int n =>
      unfold Number.text Number.integerText at printed
      dsimp only at printed
      split at printed
      · cases printed
      · cases printed
        rw [String.toList_append, String.toList_ofList]
        refine unescaped_append.mpr ⟨?_, unescaped_digitsOf _⟩
        split <;> decide

/-! ## Texts -/

theorem unescaped_quoted {text : List Char} (plain : Unescaped text) : Unescaped (quoted text) := by
  have inside : Unescaped (escaped text) := unescaped_flatMap fun c member => by
    have other : c ≠ escape := fun same => plain (same ▸ member)
    unfold escapeChar
    split <;> first | decide | simp [other]
  have mark : '"' ≠ escape := by decide
  simp [quoted, inside, mark]

theorem unescaped_codeEscape (c : Char) : Unescaped (codeEscape c) := by
  have digits (width n : Nat) : Unescaped (hexadecimal width n) :=
    unescaped_append.mpr ⟨unescaped_replicate (by decide) _, unescaped_toDigits (by omega) n⟩
  have marks : '\\' ≠ escape ∧ 'x' ≠ escape ∧ 'u' ≠ escape ∧ 'U' ≠ escape := by decide
  unfold codeEscape
  split
  · simp [digits, marks]
  · split <;> simp [digits, marks]

theorem unescaped_literal {text : String} (plain : Unescaped text.toList) :
    Unescaped (literal text).toList := by
  have mark : literalQuote text.toList ≠ escape := by
    unfold literalQuote
    split <;> decide
  have inside (quote : Char) : Unescaped (text.toList.flatMap (literalChar quote)) :=
    unescaped_flatMap fun c member => by
      have other : c ≠ escape := fun same => plain (same ▸ member)
      have slash : '\\' ≠ escape := by decide
      unfold literalChar
      repeat' split
      · simp [slash, other]
      · decide
      · decide
      · decide
      · simp [other]
      · exact unescaped_codeEscape c
  simp [literal, mark, inside]

theorem unescaped_bracketed {opening closing : String} {parts : List String}
    (opens : Unescaped opening.toList) (closes : Unescaped closing.toList)
    (each : ∀ part ∈ parts, Unescaped part.toList) :
    Unescaped (Store.bracketed opening closing parts).toList := by
  have between : Unescaped ", ".toList := by decide
  have inside := unescaped_intercalate between (List.forall_mem_map.mpr each)
  rw [Store.bracketed, String.toList_append, String.toList_append, String.toList_intercalate]
  exact unescaped_append.mpr ⟨unescaped_append.mpr ⟨opens, inside⟩, closes⟩

/-! ## Values -/

def GivesUnescaped (result : Except Failure String) : Prop :=
  Gives (fun text => Unescaped text.toList) (fun _ => True) result

theorem GivesUnescaped.prefixed {result : Except Failure String} (gives : GivesUnescaped result)
    {first : String} (plain : Unescaped first.toList) :
    GivesUnescaped ((first ++ ·) <$> result) := by
  cases result with
  | error failure => exact .error trivial
  | ok text =>
      refine .ok ?_
      rw [String.toList_append]
      exact unescaped_append.mpr ⟨plain, gives.value text rfl⟩

namespace Store
variable {store : Store} {value : Value}

/-- A value that shows only texts without the escape character. -/
def ShowsUnescaped (store : Store) (value : Value) : Prop :=
  ∀ text, store.Shows value (.string text) → Unescaped text.toList

theorem ShowsUnescaped.part {part : Value} (plain : store.ShowsUnescaped value)
    (inside : part ∈ store.parts value) : store.ShowsUnescaped part :=
  fun text shown => plain text (.head inside shown)

theorem ShowsUnescaped.string {text : String} (plain : store.ShowsUnescaped (.string text)) :
    Unescaped text.toList := plain text .refl

theorem givesUnescaped_number (n : Number) : GivesUnescaped (Failure.lift n.text) := by
  refine ⟨fun text printed => ?_, fun _ _ => trivial⟩
  cases done : n.text with
  | error fault => rw [done] at printed; cases printed
  | ok found =>
      rw [done] at printed
      cases printed
      exact unescaped_numberText done

theorem givesUnescaped_name {name : Value} {show_ : Value → Except Failure String} :
    store.ShowsUnescaped name → GivesUnescaped (show_ name) →
      GivesUnescaped (match name with
        | .string text => .ok text
        | other => show_ other) := by
  intro plain other
  split
  · exact .ok plain.string
  · exact other

theorem givesUnescaped_closure {ref depth : Nat} (within : List Value)
    (name : ∀ part ∈ store.parts (.closure ref), GivesUnescaped (match part with
      | .string text => .ok text
      | other => store.literalWithin depth within other)) :
    GivesUnescaped (store.literalWithin (depth + 1) within (.closure ref)) := by
  rw [literalWithin]
  dsimp only
  split
  · exact .ok (by decide)
  · rename_i function found
    have parameters : Gives (fun given => ∀ parameter ∈ given,
          parameter ∈ store.parts (.closure ref)) (fun _ => True)
        (Failure.lift (store.fixedElements function.parameters)) :=
      ⟨fun given made parameter => parameter_mem_parts found made, fun _ _ => trivial⟩
    refine parameters.bind fun given inside => ?_
    refine (Gives.mapM fun parameter member => name _ (inside parameter member)).bind
      fun names each => ?_
    have written : Unescaped (" ".intercalate (names.map ("$" ++ ·))).toList := by
      rw [String.toList_intercalate]
      refine unescaped_intercalate (by decide) ?_
      simp only [List.forall_mem_map, String.toList_append]
      exact fun text member => unescaped_append.mpr ⟨by decide, each text member⟩
    have named := name function.name (name_mem_parts found)
    have shown (label : String) (labelled : Unescaped label.toList) : Unescaped
        ("<" ++ label ++ " [" ++ " ".intercalate (names.map ("$" ++ ·)) ++ "]>").toList := by
      simp only [String.toList_append, unescaped_append]
      exact ⟨⟨⟨⟨by decide, labelled⟩, by decide⟩, written⟩, by decide⟩
    have prefixed := named.prefixed (show Unescaped "fn ".toList by decide)
    exact .ite (fun _ => prefixed.bind fun label labelled => .ok (shown label labelled))
      fun _ => .ok (shown "fn" (by decide))

theorem unescaped_methodName (method : BoundMethod) : Unescaped (methodName method).toList := by
  have named (function : HostFunction) : Unescaped function.name.toList := by
    cases function <;> decide
  unfold methodName
  split
  · exact named _
  · exact named _
  · decide

theorem givesUnescaped_literalWithin (plain : store.ShowsUnescaped value) (depth : Nat)
    (within : List Value) : GivesUnescaped (store.literalWithin depth within value) := by
  induction depth generalizing within value with
  | zero => exact .error trivial
  | succ depth ih =>
      have literal {part : Value} (within : List Value) (inside : part ∈ store.parts value) :
          GivesUnescaped (store.literalWithin depth within part) := ih (plain.part inside) within
      -- A name is shown as it is when it is a text, and as a literal when it is not.
      have name : ∀ part, part ∈ store.parts value → GivesUnescaped (match part with
            | .string text => .ok text
            | other => store.literalWithin depth within other) := fun part inside =>
        givesUnescaped_name (plain.part inside) (literal within inside)
      cases value with
      | null => exact .ok (by decide)
      | bool b => cases b <;> exact .ok (by decide)
      | number n => exact givesUnescaped_number n
      | string text => exact .ok (unescaped_literal plain.string)
      | tuple items =>
          refine (Gives.mapM fun item member => literal within member).bind fun parts each => ?_
          refine .ok (unescaped_bracketed (by decide) ?_ each)
          split <;> decide
      | array ref =>
          refine .ite (fun _ => .ok (by decide)) fun _ => ?_
          refine (Gives.mapM fun item member => literal _ member).bind fun parts each => ?_
          exact .ok (unescaped_bracketed (by decide) (by decide) each)
      | map ref =>
          refine .ite (fun _ => .ok (by decide)) fun _ => ?_
          have entry (entry : Value × Value) (member : entry ∈ (store.map ref).toList) :
              GivesUnescaped (do
                let name ← store.literalWithin depth (.map ref :: within) entry.1
                let text ← store.literalWithin depth (.map ref :: within) entry.2
                return name ++ ": " ++ text) := by
            refine (literal _ (key_mem_parts member)).bind fun name named =>
              (literal _ (item_mem_parts member)).bind fun text written => ?_
            exact .ok (by simp [named, written, escape])
          exact (Gives.mapM entry).bind fun parts each =>
            .ok (unescaped_bracketed (by decide) (by decide) each)
      | library | form | sequence =>
          refine (name _ List.mem_cons_self).bind fun text written => .ok ?_
          simp [written, escape]
      | closure ref => exact givesUnescaped_closure within name
      | host function => cases function <;> exact .ok (by decide)
      | bound ref =>
          refine .ok ?_
          have name : Unescaped ((store.bounds[ref]?.map methodName).getD "function").toList := by
            cases store.bounds[ref]? with
            | none => decide
            | some method => exact unescaped_methodName method
          simp [name, escape]
      | complex | object => exact .ok (by decide)

theorem givesUnescaped_leafText (plain : store.ShowsUnescaped value) :
    GivesUnescaped (store.leafText true value) := by
  cases value with
  | null => exact .ok (by decide)
  | bool b => cases b <;> exact .ok (by decide)
  | string text => exact .ok (by simpa [quote] using unescaped_quoted plain.string)
  | number n => exact givesUnescaped_number n
  | host function => cases function <;> exact .ok (by decide)
  | _ => exact givesUnescaped_literalWithin plain _ _

end Store

end ShellLisp
