import Mathlib
import ShellLisp.Number

/-!
# Numbers that are written

A floating-point number that a numeral writes is a number, so it is equal to itself.
-/

namespace ShellLisp

namespace Binary64

open Float.Model UnpackedFloat in
theorem toBits_ofBits {bits : UInt64} (number : bits.toNat % 2 ^ 63 ≤ 2047 * 2 ^ 52) :
    (Float.ofBits bits).toBits = bits := by
  have valid : Format.binary64.Valid bits.toBitVec := by
    refine ⟨fun exponent fraction => ?_⟩
    have field : (@unpackExponent .binary64 bits.toBitVec).toNat =
        bits.toNat / 2 ^ 52 % 2048 := by
      simp [unpackExponent, BitVec.extractLsb, BitVec.extractLsb', Nat.shiftRight_eq_div_pow]
    have rest : (@unpackMantissa .binary64 bits.toBitVec).toNat = bits.toNat % 2 ^ 52 := by
      simp [unpackMantissa, BitVec.extractLsb, BitVec.extractLsb']
    have filled : bits.toNat % 2 ^ 52 ≠ 0 := fun zero =>
      fraction (BitVec.eq_of_toNat_eq (by rw [rest, zero]; rfl))
    rw [exponent] at field
    have full : 2047 = bits.toNat / 2 ^ 52 % 2048 := field
    omega
  exact congrArg Float.toBits (Float.ofBits_toBits ⟨⟨bits, valid⟩⟩)

theorem twoTo_63 : twoTo 63 = 2 ^ 63 := rfl

theorem infinityPattern_eq : infinityPattern = 2047 * 2 ^ 52 := rfl

theorem packed_lt (negative : Bool) {pattern : Nat} (number : pattern ≤ infinityPattern) :
    (if negative then twoTo 63 + pattern else pattern) < 2 ^ 64 ∧
      (if negative then twoTo 63 + pattern else pattern) % 2 ^ 63 = pattern := by
  rw [infinityPattern_eq] at number
  cases negative
  · simp only [Bool.false_eq_true, if_false]
    omega
  · simp only [if_true, twoTo_63]
    omega

theorem ofFloat_pack (negative : Bool) {pattern : Nat} (number : pattern ≤ infinityPattern) :
    ofFloat (pack negative pattern) =
      ofPattern (if negative then twoTo 63 + pattern else pattern) := by
  obtain ⟨small, rest⟩ := packed_lt negative number
  rw [pack]
  generalize (if negative then twoTo 63 + pattern else pattern) = bits at small rest
  have kept : (UInt64.ofNat bits).toNat = bits := by
    rw [UInt64.toNat_ofNat']
    exact Nat.mod_eq_of_lt small
  rw [ofFloat, toBits_ofBits (by rw [kept, rest]; exact number), kept]

theorem ofPattern_ne_nan (negative : Bool) {pattern : Nat} (number : pattern ≤ infinityPattern) :
    ofPattern (if negative then twoTo 63 + pattern else pattern) ≠ .nan := by
  obtain ⟨-, rest⟩ := packed_lt negative number
  rw [infinityPattern_eq] at number
  generalize (if negative then twoTo 63 + pattern else pattern) = bits at rest
  unfold ofPattern
  dsimp only
  split
  · rename_i full
    rw [if_pos]
    · nofun
    · have field : bits / 2 ^ 52 % 2048 = 2047 := full
      show bits % 2 ^ 52 = 0
      omega
  · split <;> nofun

theorem equal_pack (negative : Bool) {pattern : Nat} (number : pattern ≤ infinityPattern) :
    (Number.float (pack negative pattern)).equal (.float (pack negative pattern)) = true := by
  have view : (Number.float (pack negative pattern)).view ≠ .nan := by
    rw [Number.view, ofFloat_pack negative number]
    exact ofPattern_ne_nan negative number
  have same := order?_self view
  show ((Number.float (pack negative pattern)).view.order?
    (Number.float (pack negative pattern)).view == some .eq) = true
  rw [same]
  rfl

end Binary64

open Binary64 in
theorem Decimal.nearestDecimal_pack (negative : Bool) (digits : Nat) (exponent : Int) :
    ∃ pattern, pattern ≤ infinityPattern ∧
      nearestDecimal negative digits exponent = pack negative pattern := by
  unfold nearestDecimal
  dsimp only
  split
  · exact ⟨0, Nat.zero_le _, rfl⟩
  · split
    · exact ⟨infinityPattern, Nat.le_refl _, rfl⟩
    · unfold nearest?
      dsimp only
      split
      · rename_i inRange
        exact ⟨_, Nat.le_of_lt inRange, rfl⟩
      · exact ⟨infinityPattern, Nat.le_refl _, rfl⟩

/-- The number that a numeral writes is equal to itself. -/
theorem Number.equal_ofNumeral {numeral : Decimal.Numeral} {number : Number}
    (done : ofNumeral numeral = .ok number) : number.equal number = true := by
  unfold ofNumeral at done
  split at done
  · split at done
    · cases done
    · cases done
      exact equal_int_iff.mpr rfl
  · cases done
    obtain ⟨pattern, inRange, packed⟩ := Decimal.nearestDecimal_pack numeral.isNegative _ _
    rw [Decimal.Numeral.float, packed]
    exact Binary64.equal_pack _ inRange

end ShellLisp
