import Bureau.Proofs.Decimal.Arithmetic
import Mathlib.Algebra.Order.Field.Rat
import Mathlib.Tactic.FieldSimp
import Mathlib.Tactic.Linarith
import Mathlib.Tactic.NormNum
import Mathlib.Tactic.Positivity

/-!
Decimals as rational numbers. The order of decimals is that of their values, whatever their scales,
and bounds, signs and dropped zeros mean for values what they say.
-/

set_option autoImplicit false

namespace Bureau

theorem cast_tenTo (n : Nat) : ((tenTo n : Nat) : ℚ) = 10 ^ n := by
  change ((10 ^ n : Nat) : ℚ) = 10 ^ n
  rw [Nat.cast_pow]
  rfl

namespace Decimal

def value (a : Decimal) : ℚ := a.coefficient / 10 ^ a.scale

variable {a b : Decimal}

theorem value_mul_scale (a : Decimal) : a.value * 10 ^ a.scale = a.coefficient := by
  have hten : (10 : ℚ) ^ a.scale ≠ 0 := by positivity
  exact div_mul_cancel₀ _ hten

theorem exists_units (a : Decimal) {scale : Nat} (h : a.scale ≤ scale) :
    ∃ n : Int, a.value * 10 ^ scale = n := by
  refine ⟨a.coefficient * 10 ^ (scale - a.scale), ?_⟩
  have hsplit : (10 : ℚ) ^ scale = 10 ^ a.scale * 10 ^ (scale - a.scale) := by
    rw [← pow_add, Nat.add_sub_cancel' h]
  rw [hsplit, ← mul_assoc, value_mul_scale]
  push_cast
  rfl

theorem abs_coefficient (a : Decimal) : |a.coefficient| = a.size := by
  rw [Int.abs_eq_natAbs, natAbs_coefficient]

private theorem abs_value_mul_scale (a : Decimal) : |a.value| * 10 ^ a.scale = a.size := by
  have hten : (0 : ℚ) < 10 ^ a.scale := by positivity
  rw [← abs_of_pos hten, ← abs_mul, value_mul_scale, ← Int.cast_abs, abs_coefficient,
    Int.cast_natCast]

theorem abs_value_le (a : Decimal) : |a.value| * 10 ^ a.scale ≤ 2 ^ 96 - 1 := by
  have hsize : a.size + 1 ≤ 2 ^ 96 := a.size_lt
  have hcast : (a.size : ℚ) + 1 ≤ 2 ^ 96 := by exact_mod_cast hsize
  rw [abs_value_mul_scale]
  linarith

/-! ### Order -/

private theorem scaledBy_eq (a b : Decimal) :
    ((a.scaledBy b : Int) : ℚ) = a.value * (10 ^ a.scale * 10 ^ b.scale) := by
  rw [scaledBy, ← mul_assoc, value_mul_scale, Int.cast_mul, Int.cast_natCast, cast_tenTo]

theorem lt_iff : a < b ↔ a.value < b.value := by
  have hten : (0 : ℚ) < 10 ^ a.scale * 10 ^ b.scale := by positivity
  change a.scaledBy b < b.scaledBy a ↔ _
  rw [← Int.cast_lt (R := ℚ), scaledBy_eq, scaledBy_eq, mul_comm (10 ^ b.scale)]
  exact mul_lt_mul_iff_left₀ hten

theorem le_iff : a ≤ b ↔ a.value ≤ b.value := by
  have hten : (0 : ℚ) < 10 ^ a.scale * 10 ^ b.scale := by positivity
  change a.scaledBy b ≤ b.scaledBy a ↔ _
  rw [← Int.cast_le (R := ℚ), scaledBy_eq, scaledBy_eq, mul_comm (10 ^ b.scale)]
  exact mul_le_mul_iff_left₀ hten

theorem sameValue_iff : a.sameValue b = true ↔ a.value = b.value := by
  have hten : (10 : ℚ) ^ a.scale * 10 ^ b.scale ≠ 0 := by positivity
  rw [sameValue, beq_iff_eq, ← Int.cast_inj (α := ℚ), scaledBy_eq, scaledBy_eq,
    mul_comm (10 ^ b.scale)]
  exact mul_left_inj' hten

theorem isZero_iff : a.isZero = true ↔ a.value = 0 := by
  have hten : (10 : ℚ) ^ a.scale ≠ 0 := by positivity
  have habs := natAbs_coefficient a
  rw [isZero, beq_iff_eq, value, div_eq_zero_iff, or_iff_left hten, Int.cast_eq_zero]
  omega

/-! ### Signs, bounds and zeros -/

@[simp] theorem value_zero : zero.value = 0 := by norm_num [value, coefficient, zero]

theorem zero_le_iff : zero ≤ a ↔ 0 ≤ a.value := by rw [le_iff, value_zero]

theorem zero_lt_iff : zero < a ↔ 0 < a.value := by rw [lt_iff, value_zero]

@[simp] theorem value_one : one.value = 1 := by norm_num [value, coefficient, one]

@[simp] theorem value_hundred : hundred.value = 100 := by norm_num [value, coefficient, hundred]

@[simp] theorem value_twoHundred : twoHundred.value = 200 := by
  norm_num [value, coefficient, twoHundred]

@[simp] theorem value_neg (a : Decimal) : a.neg.value = -a.value := by
  have hsign : a.neg.coefficient = -a.coefficient := by
    cases h : a.negative <;> simp [neg, withSign, coefficient, h]
  change ((a.neg.coefficient : Int) : ℚ) / 10 ^ a.scale = _
  rw [hsign, Int.cast_neg, neg_div]
  rfl

@[simp] theorem value_abs (a : Decimal) : a.abs.value = |a.value| := by
  have hten : (10 : ℚ) ^ a.scale ≠ 0 := by positivity
  rw [← mul_left_inj' hten, abs_value_mul_scale]
  exact value_mul_scale a.abs

theorem value_withSign {negative : Bool} (h : a.value ≠ 0 → a.negative = negative) :
    (a.withSign negative).value = a.value := by
  by_cases hzero : a.value = 0
  · have hsize : a.size = 0 := beq_iff_eq.mp (isZero_iff.mpr hzero)
    rw [hzero]
    have hnone : (a.withSign negative).isZero = true := beq_iff_eq.mpr hsize
    exact isZero_iff.mp hnone
  · rw [← h hzero]
    rfl

theorem value_max (a b : Decimal) : (a.max b).value = Max.max a.value b.value := by
  unfold Decimal.max
  split_ifs with h
  · exact (max_eq_right (le_of_lt (lt_iff.mp h))).symm
  · exact (max_eq_left (not_lt.mp fun hlt => h (lt_iff.mpr hlt))).symm

theorem value_clamp {low high : Decimal} (hle : low.value ≤ high.value) (a : Decimal) :
    (a.clamp low high).value = Max.max low.value (min a.value high.value) := by
  unfold clamp
  simp only [lt_iff]
  split_ifs with hlow hhigh
  · exact (max_eq_left (le_trans (min_le_left _ _) (le_of_lt hlow))).symm
  · rw [min_eq_right (le_of_lt hhigh), max_eq_right hle]
  · rw [min_eq_left (not_lt.mp hhigh), max_eq_right (not_lt.mp hlow)]

theorem value_of_ofParts? {n : Int} {scale : Nat} (h : ofParts? n scale = some a) :
    a.value = n / 10 ^ scale := by
  obtain ⟨hsize, hscale, hsign⟩ := of_ofParts?_eq_some h
  have hcoefficient : a.coefficient = n := by
    simp only [coefficient, hsign, hsize, decide_eq_true_eq]
    split_ifs <;> omega
  rw [value, hcoefficient, hscale]

private theorem value_stripZeros (size scale zeros : Nat) :
    ((stripZeros size scale zeros).1 : ℚ) / 10 ^ (stripZeros size scale zeros).2 =
      size / 10 ^ scale := by
  induction zeros generalizing size scale with
  | zero => rfl
  | succ zeros ih =>
      unfold stripZeros
      split_ifs with hzero
      · obtain ⟨hscale, hdigit⟩ := hzero
        obtain ⟨shorter, rfl⟩ : ∃ t, scale = t + 1 := ⟨scale - 1, by omega⟩
        have hsize : (size : ℚ) = (size / 10 : Nat) * 10 := by
          have hdiv : size = size / 10 * 10 := by omega
          exact_mod_cast hdiv
        rw [ih, Nat.add_sub_cancel, hsize, pow_succ]
        field_simp
      · rfl

@[simp] theorem value_dropZeros (a : Decimal) (zeros : Nat) : (a.dropZeros zeros).value = a.value := by
  have hstrip := value_stripZeros a.size a.scale zeros
  unfold value coefficient dropZeros
  cases a.negative with
  | false => simpa using hstrip
  | true =>
      simp only [if_true, Int.cast_neg, Int.cast_natCast, neg_div]
      rw [hstrip]

@[simp] theorem value_normalize (a : Decimal) : a.normalize.value = a.value := by
  unfold normalize
  split_ifs with hzero
  · rw [isZero_iff.mp hzero, value_zero]
  · exact value_dropZeros a a.scale

@[simp] theorem value_dropGroups (a : Decimal) (groups : Nat) :
    (a.dropGroups groups).value = a.value := by
  induction groups generalizing a with
  | zero => rfl
  | succ groups ih =>
      unfold dropGroups
      split_ifs
      · rw [ih, value_dropZeros]
      · rfl

@[simp] theorem value_shorten (a : Decimal) : a.shorten.value = a.value := by
  rw [shorten, value_dropZeros, value_dropGroups]

end Decimal

end Bureau
