import Mathlib.Data.List.Basic
import Mathlib.Data.List.TakeWhile
import ShellLisp.Decimal.Layout
import ShellLisp.Decimal.Numeral

/-!
# Written decimals

The shortest decimal of a positive number has digits, so the text of a finite number, whether with an
exponent or without, is a numeral: reading it takes it apart as it was put together.
-/

namespace ShellLisp
open Text Decimal

/-! ## Digits -/

theorem decimalDigit?_of_isDigit {c : Char} (digit : c.isDigit = true) :
    decimalDigit? c = some (c.toNat - '0'.toNat) := by
  obtain ⟨low, high⟩ : 48 ≤ c.toNat ∧ c.toNat ≤ 57 := by
    simpa [Char.isDigit, UInt32.le_iff_toNat_le] using digit
  have inside : (decide (48 ≤ c.toNat) && decide (c.toNat < 48 + 10)) = true := by
    simp only [Bool.and_eq_true, decide_eq_true_eq]
    omega
  simp only [decimalDigit?, zeroDigits, List.find?_cons, inside, Option.map_some]
  rfl

theorem isDecimalDigit_of_mem_digitsOf {n : Nat} {c : Char} (member : c ∈ digitsOf n) :
    isDecimalDigit c = true := by
  rw [isDecimalDigit,
    decimalDigit?_of_isDigit (Nat.isDigit_of_mem_toDigits (by omega) (by omega) member)]
  rfl

theorem digitsValue_eq_ofDigitChars {digits : List Char} (plain : ∀ c ∈ digits, c.isDigit = true) :
    digitsValue digits = Nat.ofDigitChars 10 digits 0 := by
  rw [digitsValue, Nat.ofDigitChars]
  refine List.foldl_ext _ _ 0 fun value c member => ?_
  rw [decimalDigit?_of_isDigit (plain c member)]
  rfl

theorem digitsValue_digitsOf (n : Nat) : digitsValue (digitsOf n) = n := by
  have plain : ∀ c ∈ digitsOf n, c.isDigit = true :=
    fun c member => Nat.isDigit_of_mem_toDigits (by omega) (by omega) member
  rw [digitsValue_eq_ofDigitChars plain]
  exact Nat.ofDigitChars_ten_toDigits

theorem digitsValue_zeros (count : Nat) : digitsValue (List.replicate count '0') = 0 := by
  induction count with
  | zero => rfl
  | succ count ih => exact ih

theorem lt_tenTo_length_digitsOf (n : Nat) : n < tenTo (digitsOf n).length :=
  (Nat.length_toDigits_le_iff (by omega) Nat.length_toDigits_pos).mp le_rfl

theorem tenTo_le_of_length_digitsOf {n count : Nat} (positive : 0 < n)
    (long : (digitsOf n).length = count + 1) : tenTo count ≤ n := by
  rcases Nat.eq_zero_or_pos count with rfl | more
  · exact positive
  · refine Nat.le_of_not_lt fun small => ?_
    have short := (Nat.length_toDigits_le_iff (by omega) more).mpr small
    rw [digitsOf] at long
    omega

/-! ## The digits of a shortest decimal -/

namespace Decimal

/-- Digits are there, and are all decimal digits. -/
structure Scientific.Written (decimal : Scientific) : Prop where
  digits : decimal.digits ≠ []
  plain : ∀ c ∈ decimal.digits, isDecimalDigit c = true

theorem Scientific.written_ofUnits {n : Nat} (positive : 0 < n) (unit : Int) :
    (Scientific.ofUnits n unit).Written where
  digits empty := by
    have zeros : ∀ c ∈ digitsOf n, c = '0' := by
      have dropped := List.dropWhile_eq_nil_iff.mp (List.reverse_eq_nil_iff.mp empty)
      simpa using dropped
    have value := digitsValue_digitsOf n
    rw [List.eq_replicate_of_mem zeros, digitsValue_zeros] at value
    omega
  plain c member := by
    refine isDecimalDigit_of_mem_digitsOf (n := n) ?_
    exact List.mem_reverse.mp ((List.dropWhile_sublist _).mem (List.mem_reverse.mp member))

theorem Rounding.pos_of_admits {interval : Rounding} (low : 0 < interval.low) {n : Nat} {unit : Int}
    (admits : interval.admits n unit = true) : 0 < n := by
  refine Nat.pos_of_ne_zero fun zero => ?_
  have below : compareScaled n unit interval.low interval.exponent = .lt := by
    rw [compareScaled, zero, Nat.zero_mul, Nat.zero_mul]
    exact Nat.compare_eq_lt.mpr
      (Nat.mul_pos (Nat.mul_pos low (twoTo_pos _)) (tenTo_pos _))
  rw [Rounding.admits, below] at admits
  cases admits

theorem Rounding.le_nearer (interval : Rounding) (below : Nat) (unit : Int) :
    below ≤ interval.nearer below unit := by
  unfold Rounding.nearer
  split
  · exact le_rfl
  · exact Nat.le_succ _
  · split <;> omega

theorem Rounding.written_withDigits? {interval : Rounding} (low : 0 < interval.low) {point : Int}
    {count : Nat} {decimal : Scientific} (found : interval.withDigits? point count = some decimal) :
    decimal.Written := by
  simp only [Rounding.withDigits?, Bool.and_eq_true] at found
  split at found
  · rename_i both
    cases found
    exact Scientific.written_ofUnits
      (Nat.lt_of_lt_of_le (pos_of_admits low both.1) (le_nearer _ _ _)) _
  · split at found
    · rename_i admits
      cases found
      exact Scientific.written_ofUnits (pos_of_admits low admits) _
    · split at found
      · cases found
        exact Scientific.written_ofUnits (Nat.succ_pos _) _
      · cases found

theorem tenTo_le {count more : Nat} (shorter : count ≤ more) : tenTo count ≤ tenTo more :=
  Nat.pow_le_pow_right (by decide) shorter

/-- The first digits of a positive number, when seventeen are taken, are no zeros. -/
theorem unitsBelow_decimalPoint_pos {n : Nat} (positive : 0 < n) (exponent : Int) :
    0 < unitsBelow n exponent (decimalPoint n exponent - 17) := by
  unfold unitsBelow decimalPoint
  have filled : 0 < n * twoTo exponent.toNat := Nat.mul_pos positive (twoTo_pos _)
  have unitFilled : 0 < twoTo (-exponent).toNat := twoTo_pos _
  generalize n * twoTo exponent.toNat = numerator at filled ⊢
  generalize twoTo (-exponent).toNat = denominator at unitFilled ⊢
  refine Nat.div_pos ?_ (Nat.mul_pos unitFilled (tenTo_pos _))
  dsimp only
  by_cases whole : denominator ≤ numerator
  · rw [if_pos whole]
    obtain ⟨count, long⟩ : ∃ count, (digitsOf (numerator / denominator)).length = count + 1 :=
      Nat.exists_eq_add_one.mpr Nat.length_toDigits_pos
    have least : denominator * tenTo count ≤ numerator := by
      rw [Nat.mul_comm]
      exact (Nat.le_div_iff_mul_le unitFilled).mp
        (tenTo_le_of_length_digitsOf (Nat.div_pos whole unitFilled) long)
    rw [long]
    calc denominator * tenTo ((count + 1 : Nat) - 17 : Int).toNat
        ≤ denominator * tenTo count := Nat.mul_le_mul_left _ (tenTo_le (by omega))
      _ ≤ numerator := least
      _ ≤ numerator * tenTo (-((count + 1 : Nat) - 17 : Int)).toNat :=
          Nat.le_mul_of_pos_right _ (tenTo_pos _)
  · rw [if_neg whole]
    have above := lt_tenTo_length_digitsOf ((denominator - 1) / numerator)
    generalize (digitsOf ((denominator - 1) / numerator)).length = count at above ⊢
    have most : denominator ≤ numerator * tenTo count := by
      have := (Nat.div_lt_iff_lt_mul filled).mp above
      rw [Nat.mul_comm]
      omega
    have none : (1 - (count : Int) - 17).toNat = 0 := by omega
    rw [none]
    calc denominator * tenTo 0 = denominator := Nat.mul_one _
      _ ≤ numerator * tenTo count := most
      _ ≤ numerator * tenTo (-(1 - (count : Int) - 17)).toNat :=
          Nat.mul_le_mul_left _ (tenTo_le (by omega))

theorem written_shortest {mantissa : Nat} (positive : 0 < mantissa) (exponent : Int) :
    (shortest mantissa exponent).Written := by
  have low : 0 < (Rounding.ofBinary mantissa exponent).low := by
    dsimp only [Rounding.ofBinary]
    split <;> omega
  have value : 0 < (Rounding.ofBinary mantissa exponent).value := Nat.mul_pos (by decide) positive
  unfold shortest
  dsimp only
  cases found : ((List.range 17).map fun shorter =>
      (Rounding.ofBinary mantissa exponent).withDigits?
        (decimalPoint (Rounding.ofBinary mantissa exponent).value
          (Rounding.ofBinary mantissa exponent).exponent) (shorter + 1)).findSome? id with
  | none => exact Scientific.written_ofUnits (unitsBelow_decimalPoint_pos value _) _
  | some decimal =>
      obtain ⟨attempt, member, is⟩ := List.exists_of_findSome?_eq_some found
      obtain ⟨shorter, -, rfl⟩ := List.mem_map.mp member
      exact Rounding.written_withDigits? low is

/-! ## Numerals and their spelling -/

/-- What signs and digits are, in a numeral that was read. -/
structure Exponent.Proper (exponent : Exponent) : Prop where
  mark : exponent.mark = 'e' ∨ exponent.mark = 'E'
  sign : ∀ c ∈ exponent.sign, c = '-' ∨ c = '+'
  digits : ∀ c ∈ exponent.digits, isDecimalDigit c = true

structure Numeral.Proper (numeral : Numeral) : Prop where
  sign : ∀ c ∈ numeral.sign, c = '-' ∨ c = '+'
  whole : ∀ c ∈ numeral.whole, isDecimalDigit c = true
  fraction : ∀ digits ∈ numeral.fraction, ∀ c ∈ digits, isDecimalDigit c = true
  exponent : ∀ exponent ∈ numeral.exponent, exponent.Proper

/-- A numeral with a digit before its exponent, and one in it. -/
structure Numeral.Filled (numeral : Numeral) : Prop where
  digits : numeral.whole ≠ [] ∨ ∃ fraction ∈ numeral.fraction, fraction ≠ []
  exponent : ∀ exponent ∈ numeral.exponent, exponent.digits ≠ []

theorem not_sign_of_isDecimalDigit {c : Char} (digit : isDecimalDigit c = true) :
    c ≠ '-' ∧ c ≠ '+' := by
  constructor <;> rintro rfl <;> exact absurd digit (by decide)

theorem takeSign_spelled {sign : Option Char} {text : List Char}
    (signs : ∀ c ∈ sign, c = '-' ∨ c = '+') (plain : ∀ c ∈ text.head?, c ≠ '-' ∧ c ≠ '+') :
    takeSign (sign.toList ++ text) = (sign, text) := by
  cases sign with
  | some c => rcases signs c rfl with rfl | rfl <;> rfl
  | none =>
      unfold takeSign
      split
      · rename_i rest start
        exact absurd rfl (plain '-' (by rw [show text = _ from start]; rfl)).1
      · rename_i rest start
        exact absurd rfl (plain '+' (by rw [show text = _ from start]; rfl)).2
      · rfl

theorem takeWhile_digits {digits rest : List Char}
    (plain : ∀ c ∈ digits, isDecimalDigit c = true)
    (ends : ∀ c ∈ rest.head?, isDecimalDigit c = false) :
    (digits ++ rest).takeWhile isDecimalDigit = digits ∧
      (digits ++ rest).dropWhile isDecimalDigit = rest := by
  rw [List.takeWhile_append_of_pos plain, List.dropWhile_append_of_pos plain]
  cases rest with
  | nil => exact ⟨List.append_nil _, rfl⟩
  | cons c rest =>
      have stops : ¬isDecimalDigit c = true := by simp [ends c rfl]
      rw [List.takeWhile_cons_of_neg stops, List.dropWhile_cons_of_neg stops]
      exact ⟨List.append_nil _, rfl⟩

theorem Exponent.Proper.read? {exponent : Exponent} (proper : exponent.Proper)
    (filled : exponent.digits ≠ []) : Exponent.read? exponent.spelling = some exponent := by
  have signed : takeSign (exponent.sign.toList ++ exponent.digits) =
      (exponent.sign, exponent.digits) :=
    takeSign_spelled proper.sign fun c first =>
      not_sign_of_isDecimalDigit (proper.digits c (List.mem_of_mem_head? first))
  have all : exponent.digits.all isDecimalDigit = true := List.all_eq_true.mpr proper.digits
  simp only [Exponent.spelling, List.cons_append, Exponent.read?, if_pos proper.mark, signed]
  rw [if_pos ⟨filled, all⟩]

theorem readExponent?_spelled {exponent : Option Exponent}
    (proper : ∀ e ∈ exponent, e.Proper) (filled : ∀ e ∈ exponent, e.digits ≠ []) :
    readExponent? ((exponent.map (·.spelling)).getD []) = some exponent := by
  cases exponent with
  | none => rfl
  | some exponent =>
      show (Exponent.read? exponent.spelling).map some = _
      rw [(proper exponent rfl).read? (filled exponent rfl)]
      rfl

theorem head?_spelled {exponent : Option Exponent} (proper : ∀ e ∈ exponent, e.Proper) :
    ∀ c ∈ ((exponent.map (·.spelling)).getD []).head?, isDecimalDigit c = false ∧ c ≠ '.' := by
  cases exponent with
  | none => simp
  | some exponent =>
      rintro c ⟨⟩
      show isDecimalDigit exponent.mark = false ∧ exponent.mark ≠ '.'
      rcases (proper exponent rfl).mark with is | is <;> rw [is] <;> decide

/-- A numeral is read back from its spelling. -/
theorem Numeral.Proper.read? {numeral : Numeral} (proper : numeral.Proper)
    (filled : numeral.Filled) : Numeral.read? numeral.spelling = some numeral := by
  obtain ⟨sign, whole, fraction, exponent⟩ := numeral
  have ending := readExponent?_spelled proper.exponent filled.exponent
  have stops := head?_spelled proper.exponent
  simp only [Numeral.spelling, List.append_assoc]
  generalize (exponent.map (·.spelling)).getD [] = tail at ending stops
  have digitFirst : ∀ rest : List Char, whole ≠ [] →
      ∀ c ∈ (whole ++ rest).head?, c ≠ '-' ∧ c ≠ '+' := fun rest there c first => by
    rw [List.head?_append_of_ne_nil _ there] at first
    exact not_sign_of_isDecimalDigit (proper.whole c (List.mem_of_mem_head? first))
  cases fraction with
  | none =>
      have there : whole ≠ [] := by simpa using filled.digits
      obtain ⟨taken, left⟩ := takeWhile_digits proper.whole fun c first => (stops c first).1
      simp only [Option.map_none, Option.getD_none, List.nil_append, Numeral.read?,
        takeSign_spelled proper.sign (digitFirst tail there), taken, left]
      split
      · exact absurd rfl (stops '.' rfl).2
      · rw [if_neg there, ending]
        rfl
  | some fraction =>
      have pointFirst : ∀ c ∈ (whole ++ '.' :: (fraction ++ tail)).head?, c ≠ '-' ∧ c ≠ '+' := by
        by_cases empty : whole = []
        · rw [empty]
          rintro c ⟨⟩
          decide
        · exact digitFirst _ empty
      have pointStops : ∀ c ∈ ('.' :: (fraction ++ tail)).head?, isDecimalDigit c = false := by
        rintro c ⟨⟩
        decide
      obtain ⟨taken, left⟩ := takeWhile_digits proper.whole pointStops
      obtain ⟨takenBehind, leftBehind⟩ := takeWhile_digits (proper.fraction fraction rfl)
        fun c first => (stops c first).1
      have notEmpty : ¬(whole = [] ∧ fraction = []) := by
        have filledDigits := filled.digits
        simp only [Option.mem_def, Option.some.injEq, exists_eq_left'] at filledDigits
        rintro ⟨first, second⟩
        exact filledDigits.elim (· first) (· second)
      simp only [Option.map_some, Option.getD_some, List.cons_append, Numeral.read?,
        takeSign_spelled proper.sign pointFirst, taken, left, takenBehind, leftBehind,
        if_neg notEmpty, ending]

/-! ## Texts of finite numbers -/

theorem isDecimalDigit_zeros (count : Nat) :
    ∀ c ∈ List.replicate count '0', isDecimalDigit c = true := by
  intro c member
  rw [(List.mem_replicate.mp member).2]
  decide

theorem isDecimalDigit_append {first second : List Char}
    (plain : ∀ c ∈ first, isDecimalDigit c = true) (more : ∀ c ∈ second, isDecimalDigit c = true) :
    ∀ c ∈ first ++ second, isDecimalDigit c = true :=
  fun c member => (List.mem_append.mp member).elim (plain c) (more c)

/-- The text is the spelling of a numeral without a sign, which is read back from it. -/
def IsNumeral (text : List Char) : Prop :=
  ∃ numeral : Numeral, numeral.sign = none ∧ numeral.Proper ∧ numeral.Filled ∧
    numeral.spelling = text

theorem isNumeral_point {whole fraction : List Char} (there : whole ≠ [])
    (first : ∀ c ∈ whole, isDecimalDigit c = true)
    (second : ∀ c ∈ fraction, isDecimalDigit c = true) :
    IsNumeral (whole ++ '.' :: fraction) := by
  refine ⟨⟨none, whole, some fraction, none⟩, rfl, ⟨by simp, first, ?_, by simp⟩,
    ⟨.inl there, by simp⟩, by simp [Numeral.spelling]⟩
  rintro _ ⟨⟩
  exact second

theorem isNumeral_positional {decimal : Scientific} (written : decimal.Written) :
    IsNumeral (positional decimal) := by
  unfold positional
  split
  · exact isNumeral_point (List.cons_ne_nil '0' []) (isDecimalDigit_zeros 1)
      (isDecimalDigit_append (isDecimalDigit_zeros _) written.plain)
  · dsimp only
    split
    · exact isNumeral_point (by simp [written.digits])
        (isDecimalDigit_append written.plain (isDecimalDigit_zeros _)) (isDecimalDigit_zeros 1)
    · refine isNumeral_point ?_ (fun c member => written.plain c (List.mem_of_mem_take member))
        fun c member => written.plain c (List.mem_of_mem_drop member)
      simp only [ne_eq, List.take_eq_nil_iff, written.digits, or_false]
      omega

theorem isNumeral_exponential {decimal : Scientific} (written : decimal.Written) :
    IsNumeral (valueLayout.exponential decimal) := by
  obtain ⟨exponent, proper, there, spelled⟩ : ∃ exponent : Exponent, exponent.Proper ∧
      exponent.digits ≠ [] ∧
        exponent.spelling = valueLayout.exponentText (decimal.point - 1) := by
    refine ⟨⟨'e', some (if decimal.point - 1 < 0 then '-' else '+'),
      padZeros 2 (digitsOf (decimal.point - 1).natAbs)⟩, ⟨.inl rfl, ?_, ?_⟩, ?_, rfl⟩
    · rintro c ⟨⟩
      split <;> simp
    · exact isDecimalDigit_append (isDecimalDigit_zeros _) fun c => isDecimalDigit_of_mem_digitsOf
    · exact List.append_ne_nil_of_right_ne_nil _ Nat.toDigits_ne_nil
  have exponents : ∀ e ∈ some exponent, e.Proper ∧ e.digits ≠ [] := by
    rintro _ ⟨⟩
    exact ⟨proper, there⟩
  unfold NumberLayout.exponential
  rw [← spelled]
  dsimp only
  split
  · rename_i first second rest digits
    have plain := digits ▸ written.plain
    refine ⟨⟨none, [first], some (second :: rest), exponent⟩, rfl, ⟨by simp, ?_, ?_, ?_⟩,
      ⟨.inl (by simp), fun e is => (exponents e is).2⟩, ?_⟩
    · simpa using plain first (by simp)
    · rintro _ ⟨⟩ c member
      exact plain c (by simp [List.mem_cons.mp member])
    · exact fun e is => (exponents e is).1
    · simp [Numeral.spelling]
  · refine ⟨⟨none, decimal.digits, none, exponent⟩, rfl,
      ⟨by simp, written.plain, by simp, fun e is => (exponents e is).1⟩,
      ⟨.inl written.digits, fun e is => (exponents e is).2⟩, ?_⟩
    simp [Numeral.spelling]

theorem isNumeral_positive {decimal : Scientific} (written : decimal.Written) :
    IsNumeral (valueLayout.positive decimal) := by
  unfold NumberLayout.positive
  split
  · exact isNumeral_positional written
  · exact isNumeral_exponential written

theorem IsNumeral.read? {text : List Char} (numeral : IsNumeral text) (negative : Bool) :
    ∃ found, Numeral.read? ((if negative then ['-'] else []) ++ text) = some found := by
  obtain ⟨⟨_, whole, fraction, exponent⟩, rfl, proper, filled, rfl⟩ := numeral
  cases negative with
  | false => exact ⟨_, proper.read? filled⟩
  | true =>
      let negated : Numeral := ⟨some '-', whole, fraction, exponent⟩
      have signed : negated.Proper :=
        ⟨by simp [negated], proper.whole, proper.fraction, proper.exponent⟩
      exact ⟨negated, signed.read? ⟨filled.digits, filled.exponent⟩⟩

/-- The text of a finite number is a numeral. -/
theorem exists_read?_floatText {x : Float} {negative : Bool} {mantissa : Nat} {exponent : Int}
    (finite : Binary64.ofFloat x = .finite negative mantissa exponent) :
    ∃ numeral, Numeral.read? (floatText x).toList = some numeral := by
  have texts : IsNumeral (if mantissa = 0 then ['0', '.', '0']
      else valueLayout.positive (shortest mantissa exponent)) := by
    split
    · exact isNumeral_point (List.cons_ne_nil '0' []) (isDecimalDigit_zeros 1)
        (isDecimalDigit_zeros 1)
    · exact isNumeral_positive (written_shortest (by omega) exponent)
  have spelled : (floatText x).toList = (if negative then ['-'] else []) ++
      (if mantissa = 0 then ['0', '.', '0']
        else valueLayout.positive (shortest mantissa exponent)) := by
    rw [floatText, finite, NumberLayout.render]
    split <;> cases negative <;> simp
  rw [spelled]
  exact texts.read? negative

end Decimal

end ShellLisp
