import Mathlib.Algebra.Field.Rat
import Mathlib.Algebra.Order.Ring.Rat
import ShellLisp.Proofs.Members.Parts
import ShellLisp.Proofs.Printing.Layout

/-!
# What numbers and keys stand for

Two numbers are equal when they stand for the same rational number or the same infinity, whether
they are integers or floating-point numbers. Two plain values are the same key when they stand for
the same thing: true and false stand for one and zero, an array or a map for itself.
-/

namespace ShellLisp

inductive Magnitude
  | finite (value : ℚ)
  | infinite (negative : Bool)
  | nan

namespace Binary64

def magnitude : Binary64 → Magnitude
  | .finite negative mantissa exponent => .finite (signed negative mantissa * (2 : ℚ) ^ exponent)
  | .infinite negative => .infinite negative
  | .nan => .nan

theorem orderInt_eq_eq {n m : Int} : orderInt n m = .eq ↔ n = m := by
  unfold orderInt
  split
  · simp
    omega
  · split <;> simp <;> omega

theorem balance_eq_iff (n m e f : Int) :
    (balance n (e - f) m).1 = (balance n (e - f) m).2 ↔ (n : ℚ) * 2 ^ e = m * 2 ^ f := by
  have split : (2 : ℚ) ^ e = 2 ^ (e - f) * 2 ^ f := by
    rw [← zpow_add₀ two_ne_zero, sub_add_cancel]
  have positive : (2 : ℚ) ^ f ≠ 0 := zpow_ne_zero f two_ne_zero
  rw [split, ← mul_assoc, mul_left_inj' positive]
  unfold balance
  split
  · rename_i up
    obtain ⟨steps, is⟩ := Int.eq_ofNat_of_zero_le up
    rw [is, Int.toNat_natCast, zpow_natCast, ← @Int.cast_inj ℚ]
    norm_cast
  · rename_i down
    obtain ⟨steps, is⟩ := Int.eq_ofNat_of_zero_le (show 0 ≤ -(e - f) by omega)
    have opposite : e - f = -(steps : Int) := by omega
    rw [opposite, neg_neg, Int.toNat_natCast, zpow_neg, zpow_natCast, ← div_eq_mul_inv,
      div_eq_iff (pow_ne_zero steps two_ne_zero), ← @Int.cast_inj ℚ]
    norm_cast

theorem order?_eq_iff {a b : Binary64} :
    a.order? b = some .eq ↔ a ≠ .nan ∧ a.magnitude = b.magnitude := by
  cases a with
  | nan => simp [order?]
  | infinite negative =>
      cases b with
      | nan => simp [order?, magnitude]
      | infinite other => cases negative <;> cases other <;> simp [order?, magnitude]
      | finite => cases negative <;> simp [order?, magnitude]
  | finite negative mantissa exponent =>
      cases b with
      | nan => simp [order?, magnitude]
      | infinite other => cases other <;> simp [order?, magnitude]
      | finite other n e =>
          simp only [order?, magnitude, Option.some.injEq, orderInt_eq_eq, balance_eq_iff]
          simp

end Binary64

namespace Number

def magnitude : Number → Magnitude
  | .int n => .finite n
  | .float x => (Binary64.ofFloat x).magnitude

theorem magnitude_view (n : Number) : n.view.magnitude = n.magnitude := by
  cases n with
  | float => rfl
  | int n =>
      show Magnitude.finite (Binary64.signed (n < 0) n.natAbs * (2 : ℚ) ^ (0 : Int)) = .finite n
      rw [view_int, zpow_zero, mul_one]

theorem equal_iff {a b : Number} :
    a.equal b = true ↔ a.view ≠ .nan ∧ a.magnitude = b.magnitude := by
  have viewed : a.view.order? b.view = some .eq ↔ a.view ≠ .nan ∧ a.magnitude = b.magnitude := by
    rw [Binary64.order?_eq_iff, magnitude_view, magnitude_view]
  cases a with
  | float => simpa [equal, order?] using viewed
  | int n =>
      cases b with
      | float => simpa [equal, order?] using viewed
      | int m => simp [equal_int_iff, magnitude, view, Binary64.ofInt]

theorem view_eq_nan {n : Number} : n.view = .nan ↔ n.magnitude = .nan := by
  rw [← magnitude_view]
  cases n.view <;> simp [Binary64.magnitude]

theorem same_iff {a b : Number} : a.same b = true ↔ a.magnitude = b.magnitude := by
  rw [same, Bool.or_eq_true, Bool.and_eq_true, beq_iff_eq, beq_iff_eq, equal_iff, ne_eq,
    view_eq_nan, view_eq_nan]
  constructor
  · rintro (⟨-, same⟩ | ⟨left, right⟩)
    · exact same
    · rw [left, right]
  · intro same
    by_cases unknown : a.magnitude = .nan
    · exact .inr ⟨unknown, same ▸ unknown⟩
    · exact .inl ⟨unknown, same⟩

end Number

inductive Mark
  | null
  | number (magnitude : Magnitude)
  | text (s : String)
  | array (ref : Nat)
  | map (ref : Nat)
  | other

namespace Value

def mark : Value → Mark
  | .null => .null
  | .bool b => .number (Number.int (if b then 1 else 0)).magnitude
  | .number n => .number n.magnitude
  | .string s => .text s
  | .array ref => .array ref
  | .map ref => .map ref
  | _ => .other

theorem mark_bool {a b : Bool} : (Value.bool a).mark = (Value.bool b).mark ↔ a = b := by
  cases a <;> cases b <;> simp [mark, Number.magnitude]

theorem sameKey_iff {a b : Value} (left : a.IsPlain) (right : b.IsPlain) :
    a.sameKey b = true ↔ a.mark = b.mark := by
  cases a <;> first | exact left.elim | skip
  all_goals cases b <;> first | exact right.elim | skip
  case bool.bool => rw [mark_bool, sameKey, beq_iff_eq]
  all_goals simp [sameKey, mark, Number.same_iff]

theorem sameKey_array {v : Value} {ref : Nat} : v.sameKey (.array ref) = true ↔ v = .array ref := by
  cases v <;> simp [sameKey]

theorem array_sameKey {v : Value} {ref : Nat} : (array ref).sameKey v = true ↔ v = .array ref := by
  cases v with
  | array other => simpa [sameKey] using eq_comm
  | _ => simp [sameKey]

theorem sameKey_map {v : Value} {ref : Nat} : v.sameKey (.map ref) = true ↔ v = .map ref := by
  cases v <;> simp [sameKey]

theorem map_sameKey {v : Value} {ref : Nat} : (map ref).sameKey v = true ↔ v = .map ref := by
  cases v with
  | map other => simpa [sameKey] using eq_comm
  | _ => simp [sameKey]

end Value

end ShellLisp
