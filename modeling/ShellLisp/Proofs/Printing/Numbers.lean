import ShellLisp.Proofs.Printing.Decimals
import ShellLisp.Proofs.Reading.Spelling

/-!
# Printed numbers

The text of a number is a numeral of it: an integer that is short enough to be printed is read back,
and a floating-point number is read back as one, never as an integer, when its digits stand for it.
-/

namespace ShellLisp
open Text Decimal

/-! ## Numerals as words -/

theorem isBlank_of_isDecimalDigit {c : Char} (digit : isDecimalDigit c = true) :
    isBlank c = false := by
  obtain ⟨value, found⟩ := Option.isSome_iff_exists.mp digit
  obtain ⟨first, block, -⟩ := Option.map_eq_some_iff.mp found
  have member := List.mem_of_find?_eq_some block
  have inside := List.find?_some block
  simp only [Bool.and_eq_true, decide_eq_true_eq] at inside
  have apart : ∀ first ∈ zeroDigits, ∀ span ∈ blankSpans, first + 10 ≤ span.1 ∨ span.2 < first := by
    decide
  rw [Bool.eq_false_iff]
  intro blank
  obtain ⟨span, among, within⟩ := List.any_eq_true.mp blank
  simp only [Bool.and_eq_true, decide_eq_true_eq] at within
  have := apart first member span among
  omega

def isNumeralChar (c : Char) : Bool := isDecimalDigit c || ['-', '+', '.', 'e', 'E'].contains c

theorem startsWord_of_numeralChar {c : Char} (inside : isNumeralChar c = true) :
    startsWord c = true := by
  simp only [isNumeralChar, Bool.or_eq_true, List.contains_eq_mem, List.mem_cons, List.not_mem_nil,
    or_false, decide_eq_true_eq] at inside
  rcases inside with digit | rfl | rfl | rfl | rfl | rfl
  · have noBreak : isWordBreak c = false := by
      rw [Bool.eq_false_iff]
      intro same
      simp only [isWordBreak, List.contains_eq_mem, List.mem_cons, List.not_mem_nil, or_false,
        decide_eq_true_eq] at same
      rcases same with rfl | rfl | rfl | rfl | rfl | rfl | rfl | rfl | rfl | rfl | rfl | rfl | rfl |
        rfl <;> exact absurd digit (by decide)
    have noComment : c ≠ '#' := by
      rintro rfl
      exact absurd digit (by decide)
    simp [startsWord, noBreak, isBlank_of_isDecimalDigit digit, noComment]
  all_goals decide

theorem mem_takeSign {text : List Char} : ∀ c ∈ (takeSign text).1, c = '-' ∨ c = '+' := by
  intro c member
  unfold takeSign at member
  split at member
  · exact .inl (Option.some.inj member).symm
  · exact .inr (Option.some.inj member).symm
  · cases member

theorem isDecimalDigit_of_mem_takeWhile {text : List Char} :
    ∀ c ∈ text.takeWhile isDecimalDigit, isDecimalDigit c = true :=
  fun c member => List.all_eq_true.mp List.all_takeWhile c member

theorem proper_of_readExponent? {text : List Char} {found : Option Exponent}
    (read : readExponent? text = some found) : ∀ exponent ∈ found, exponent.Proper := by
  cases text with
  | nil =>
      cases read
      exact nofun
  | cons mark rest =>
      obtain ⟨exponent, action, rfl⟩ := Option.map_eq_some_iff.mp read
      simp only [Exponent.read?] at action
      split at action
      · rename_i marked
        split at action
        · rename_i filled
          cases action
          rintro _ ⟨⟩
          exact ⟨marked, mem_takeSign, List.all_eq_true.mp filled.2⟩
        · cases action
      · cases action

theorem proper_of_read? {text : List Char} {numeral : Numeral}
    (read : Numeral.read? text = some numeral) : numeral.Proper := by
  simp only [Numeral.read?] at read
  split at read
  · split at read
    · cases read
    · obtain ⟨exponent, action, rfl⟩ := Option.map_eq_some_iff.mp read
      refine ⟨mem_takeSign, isDecimalDigit_of_mem_takeWhile, ?_, proper_of_readExponent? action⟩
      rintro _ ⟨⟩
      exact isDecimalDigit_of_mem_takeWhile
  · split at read
    · cases read
    · obtain ⟨exponent, action, rfl⟩ := Option.map_eq_some_iff.mp read
      exact ⟨mem_takeSign, isDecimalDigit_of_mem_takeWhile, by rintro _ ⟨⟩,
        proper_of_readExponent? action⟩

theorem isNumeralChar_of_sign {c : Char} (sign : c = '-' ∨ c = '+') : isNumeralChar c = true := by
  rcases sign with rfl | rfl <;> decide

theorem isNumeralChar_of_digit {c : Char} (digit : isDecimalDigit c = true) :
    isNumeralChar c = true := by
  rw [isNumeralChar, digit, Bool.true_or]

theorem Decimal.Exponent.Proper.isNumeralChar {exponent : Exponent} (proper : exponent.Proper) :
    ∀ c ∈ exponent.spelling, isNumeralChar c = true := by
  intro c member
  rcases List.mem_cons.mp member with rfl | later
  · rcases proper.mark with mark | mark <;> rw [mark] <;> decide
  · rcases List.mem_append.mp later with sign | digit
    · exact isNumeralChar_of_sign (proper.sign c (Option.mem_toList.mp sign))
    · exact isNumeralChar_of_digit (proper.digits c digit)

theorem Decimal.Numeral.Proper.isNumeralChar {numeral : Numeral} (proper : numeral.Proper) :
    ∀ c ∈ numeral.spelling, isNumeralChar c = true := by
  intro c member
  rcases List.mem_append.mp member with front | back
  · rcases List.mem_append.mp front with sign | digit
    · exact isNumeralChar_of_sign (proper.sign c (Option.mem_toList.mp sign))
    · exact isNumeralChar_of_digit (proper.whole c digit)
  · rcases List.mem_append.mp back with fraction | exponent
    · cases digits : numeral.fraction with
      | none => simp [digits] at fraction
      | some digits' =>
          rw [digits] at fraction
          rcases List.mem_cons.mp fraction with rfl | digit
          · decide
          · exact isNumeralChar_of_digit (proper.fraction _ digits c digit)
    · cases found : numeral.exponent with
      | none => simp [found] at exponent
      | some e =>
          rw [found] at exponent
          exact (proper.exponent e found).isNumeralChar c exponent

theorem isNumeralChar_of_read? {text : List Char} {numeral : Numeral}
    (read : Numeral.read? text = some numeral) : ∀ c ∈ text, isNumeralChar c = true := by
  rw [← Numeral.spelling_of_read? read]
  exact (proper_of_read? read).isNumeralChar

theorem ofWord_of_read? {text : List Char} {numeral : Numeral}
    (read : Numeral.read? text = some numeral) :
    Lexeme.ofWord text = (Number.ofNumeral numeral).map (.number · (String.ofList text)) := by
  unfold Lexeme.ofWord
  split
  · cases isNumeralChar_of_read? read '$' List.mem_cons_self
  · rw [read]

theorem spells_numeral {text : List Char} {numeral : Numeral} {number : Number}
    (read : Numeral.read? text = some numeral) (made : Number.ofNumeral numeral = .ok number) :
    Spells text (.number number (String.ofList text)) := by
  have starts : ∀ c ∈ text, startsWord c = true :=
    fun c member => startsWord_of_numeralChar (isNumeralChar_of_read? read c member)
  cases text with
  | nil => cases read
  | cons c more =>
      obtain ⟨first, others⟩ := List.forall_mem_cons.mp starts
      refine spells_word first (fun x member => ?_) ?_
      · have plain := others x member
        simp only [startsWord, Bool.not_eq_true', Bool.or_eq_false_iff] at plain
        exact plain.1.1
      · rw [ofWord_of_read? read, made, Except.map]

/-! ## Integers -/

theorem read?_integer {digits : List Char} (filled : digits ≠ [])
    (plain : ∀ c ∈ digits, isDecimalDigit c = true) (negative : Bool) :
    Numeral.read? ((if negative then ['-'] else []) ++ digits) =
      some ⟨if negative then some '-' else none, digits, none, none⟩ := by
  have proper : (⟨if negative then some '-' else none, digits, none, none⟩ : Numeral).Proper := by
    refine ⟨fun c is => ?_, plain, nofun, nofun⟩
    cases negative <;> cases is
    exact .inl rfl
  have read := proper.read? ⟨.inl filled, nofun⟩
  cases negative <;> simpa [Numeral.spelling] using read

theorem numeral_integerText {n : Int} {text : String} (printed : Number.integerText n = .ok text) :
    ∃ numeral, Numeral.read? text.toList = some numeral ∧
      Number.ofNumeral numeral = .ok (.int n) := by
  have plain : ∀ c ∈ digitsOf n.natAbs, isDecimalDigit c = true :=
    fun c => isDecimalDigit_of_mem_digitsOf
  have filled : digitsOf n.natAbs ≠ [] := Nat.toDigits_ne_nil
  unfold Number.integerText at printed
  dsimp only at printed
  split at printed
  · cases printed
  · rename_i short
    cases printed
    by_cases negative : n < 0
    · refine ⟨_, by rw [if_pos negative]; simpa using read?_integer filled plain true, ?_⟩
      simp only [Number.ofNumeral, Numeral.isInteger, Option.isNone_none, Bool.and_self, if_true,
        if_neg short, Numeral.integer, Numeral.isNegative, digitsValue_digitsOf]
      have value : Binary64.signed true n.natAbs = n := by
        simp only [Binary64.signed, if_true]
        omega
      exact congrArg (Except.ok ∘ Number.int) value
    · refine ⟨_, by rw [if_neg negative]; simpa using read?_integer filled plain false, ?_⟩
      simp only [Number.ofNumeral, Numeral.isInteger, Option.isNone_none, Bool.and_self, if_true,
        if_neg short, Numeral.integer, Numeral.isNegative, digitsValue_digitsOf]
      have value : Binary64.signed false n.natAbs = n := by
        simp only [Binary64.signed, Bool.false_eq_true, if_false]
        omega
      exact congrArg (Except.ok ∘ Number.int) value

/-! ## Floating-point numbers -/

/-- The text of a floating-point number, which is finite, stands for the number. -/
structure ReadsBack (x : Float) : Prop where
  finite : ∃ negative mantissa exponent, Binary64.ofFloat x = .finite negative mantissa exponent
  same : ∀ numeral, Numeral.read? (floatText x).toList = some numeral → numeral.float = x

theorem not_isInteger_of_mem {text : List Char} {numeral : Numeral}
    (read : Numeral.read? text = some numeral) {c : Char} (member : c ∈ text)
    (mark : c = '.' ∨ c = 'e') : numeral.isInteger = false := by
  rw [Bool.eq_false_iff]
  intro integer
  have proper := proper_of_read? read
  simp only [Numeral.isInteger, Bool.and_eq_true, Option.isNone_iff_eq_none] at integer
  rw [← Numeral.spelling_of_read? read, Numeral.spelling, integer.1, integer.2] at member
  simp only [Option.map_none, Option.getD_none, List.append_nil, List.mem_append,
    Option.mem_toList] at member
  rcases member with sign | digit
  · rcases proper.sign c sign with rfl | rfl <;> exact absurd mark (by decide)
  · have plain := proper.whole c digit
    rcases mark with rfl | rfl <;> exact absurd plain (by decide)

theorem mark_mem_positive (decimal : Scientific) :
    ∃ c ∈ valueLayout.positive decimal, c = '.' ∨ c = 'e' := by
  unfold NumberLayout.positive
  split
  · refine ⟨'.', ?_, .inl rfl⟩
    unfold positional
    dsimp only
    split
    · simp
    · split <;> simp
  · refine ⟨'e', ?_, .inr rfl⟩
    simp [NumberLayout.exponential, NumberLayout.exponentText, valueLayout]

theorem mark_mem_floatText {x : Float} {negative : Bool} {mantissa : Nat} {exponent : Int}
    (finite : Binary64.ofFloat x = .finite negative mantissa exponent) :
    ∃ c ∈ (floatText x).toList, c = '.' ∨ c = 'e' := by
  rw [floatText, finite, NumberLayout.render]
  split
  · exact ⟨'.', by simp, .inl rfl⟩
  · obtain ⟨c, member, mark⟩ := mark_mem_positive (shortest mantissa exponent)
    exact ⟨c, by simp [member], mark⟩

theorem numeral_floatText {x : Float} (back : ReadsBack x) :
    ∃ numeral, Numeral.read? (floatText x).toList = some numeral ∧
      Number.ofNumeral numeral = .ok (.float x) := by
  obtain ⟨negative, mantissa, exponent, finite⟩ := back.finite
  obtain ⟨numeral, read⟩ := exists_read?_floatText finite
  obtain ⟨c, member, mark⟩ := mark_mem_floatText finite
  refine ⟨numeral, read, ?_⟩
  rw [Number.ofNumeral, not_isInteger_of_mem read member mark, back.same numeral read]
  rfl

theorem spells_number {number : Number} {text : String} (printed : number.text = .ok text)
    (back : ∀ x, number = .float x → ReadsBack x) :
    Spells text.toList (.number number text) ∧ number.equal number = true := by
  have numeral : ∃ numeral, Numeral.read? text.toList = some numeral ∧
      Number.ofNumeral numeral = .ok number := by
    cases number with
    | int n => exact numeral_integerText printed
    | float x =>
        cases printed
        exact numeral_floatText (back x rfl)
  obtain ⟨numeral, read, made⟩ := numeral
  have spelled := spells_numeral read made
  rw [String.ofList_toList] at spelled
  exact ⟨spelled, Number.equal_ofNumeral made⟩

end ShellLisp
