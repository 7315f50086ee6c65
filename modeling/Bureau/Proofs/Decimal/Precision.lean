import Bureau.Proofs.Decimal.Rounding
import Mathlib.Tactic.Ring

/-!
How far rounding goes. A result exists if it lies less than half a unit above the greatest decimal, and
it is off by half a unit of the 28th place and a part in 10²⁸ of itself at most; by half a unit of any
place at which it fits. Errors of several operations add up as parts of the exact result.
-/

set_option autoImplicit false

namespace Bureau.Decimal

variable {a b c : Decimal} {q : ℚ}

/-! ### Results that exist -/

private theorem exists_nearest?_of_abs_lt {num : Int} {den : Nat} (hden : 0 < den)
    (h : |(num / den : ℚ)| < 2 ^ 96 - 1 / 2) (places : Nat) :
    ∃ a, nearest? num den places = some a := by
  have hpos : (0 : ℚ) < den := by exact_mod_cast hden
  have hround := isHalfEven_halfEven num.natAbs hden
  rw [abs_div, abs_of_pos hpos, ← Int.cast_abs, ← Nat.cast_natAbs] at h
  have hfits : ((halfEven num.natAbs den : Nat) : Int) < ((2 ^ 96 : Nat) : Int) := by
    rw [hround.lt_iff]
    left
    push_cast
    exact h
  exact exists_nearest? (Int.ofNat_lt.mp hfits) places

theorem exists_add? (h : |a.value + b.value| < 2 ^ 96 - 1 / 2) : ∃ c, a.add? b = some c := by
  rw [← cast_add_div] at h
  obtain ⟨c, hc⟩ := exists_nearest?_of_abs_lt (tenTo_pos _) h (Nat.max a.scale b.scale)
  unfold add?
  simp only [hc]
  split_ifs <;> exact ⟨_, rfl⟩

theorem exists_sub? (h : |a.value - b.value| < 2 ^ 96 - 1 / 2) : ∃ c, a.sub? b = some c := by
  refine exists_add? ?_
  split_ifs with hb
  · rwa [isZero_iff.mp hb, sub_zero, ← add_zero a.value, ← isZero_iff.mp hb] at h
  · rwa [value_neg, ← sub_eq_add_neg]

theorem exists_mul? (h : |a.value * b.value| < 2 ^ 96 - 1 / 2) : ∃ c, a.mul? b = some c := by
  rw [← cast_mul_div] at h
  obtain ⟨c, hc⟩ := exists_nearest?_of_abs_lt (tenTo_pos _) h (Nat.min maxScale (a.scale + b.scale))
  unfold mul?
  simp only [hc]
  split_ifs <;> exact ⟨_, rfl⟩

theorem exists_mul?_le {d : Decimal} (h : b.mul? c = some d) (hc : zero ≤ c) (ha : zero ≤ a)
    (hab : a ≤ b) : ∃ e, a.mul? c = some e ∧ e ≤ d := by
  rw [zero_le_iff] at hc ha
  have hle : a.value * c.value ≤ b.value * c.value := mul_le_mul_of_nonneg_right (le_iff.mp hab) hc
  have hfits := (le_abs_self _).trans_lt (rounds_mul? h).abs_lt
  obtain ⟨e, he⟩ := exists_mul? (a := a) (b := c) (by
    rw [abs_of_nonneg (mul_nonneg ha hc)]
    exact hle.trans_lt hfits)
  exact ⟨e, he, (rounds_mul? he).mono (rounds_mul? h) hle⟩

theorem exists_add?_le {d e : Decimal} (h : b.add? d = some e) (ha : zero ≤ a) (hc : zero ≤ c)
    (hab : a ≤ b) (hcd : c ≤ d) : ∃ s, a.add? c = some s ∧ s ≤ e := by
  rw [zero_le_iff] at ha hc
  have hle : a.value + c.value ≤ b.value + d.value := add_le_add (le_iff.mp hab) (le_iff.mp hcd)
  have hfits := (le_abs_self _).trans_lt (rounds_add? h).abs_lt
  obtain ⟨s, hs⟩ := exists_add? (a := a) (b := c) (by
    rw [abs_of_nonneg (add_nonneg ha hc)]
    exact hle.trans_lt hfits)
  exact ⟨s, hs, (rounds_add? hs).mono (rounds_add? h) hle⟩

private theorem exists_ofParts?_of_even (hb : b.isZero = false)
    (heven : a.coefficient % b.coefficient = 0) (h : |a.value / b.value| < 2 ^ 96 - 1 / 2) :
    ∃ c, ofParts? (a.coefficient / b.coefficient * tenTo (b.scale - a.scale)) (a.scale - b.scale) =
      some c := by
  have hscale : a.scale - b.scale ≤ 28 := Nat.le_trans (Nat.sub_le _ _) a.scale_le
  suffices hsize : (a.coefficient / b.coefficient * tenTo (b.scale - a.scale)).natAbs < twoTo 96 from
    ⟨_, ofParts?_of_fits hsize hscale⟩
  rcases Nat.le_total b.scale a.scale with hle | hle
  · -- the quotient of the digits is no greater than the dividend
    rw [Nat.sub_eq_zero_of_le hle, show ((tenTo 0 : Nat) : Int) = 1 from rfl, Int.mul_one]
    have hquotient := Int.natAbs_ediv_le_natAbs a.coefficient b.coefficient
    rw [natAbs_coefficient] at hquotient
    exact Nat.lt_of_le_of_lt hquotient a.size_lt
  · have hcoefficient : (b.coefficient : ℚ) ≠ 0 := by exact_mod_cast coefficient_ne_zero hb
    have hmul : (a.coefficient : ℚ) = b.coefficient * (a.coefficient / b.coefficient : Int) := by
      exact_mod_cast (Int.mul_ediv_cancel_of_emod_eq_zero heven).symm
    have hvalue : a.value / b.value =
        ((a.coefficient / b.coefficient * tenTo (b.scale - a.scale) : Int) : ℚ) := by
      have hsplit := pow_sub_div_pow_sub b.scale a.scale
      rw [Nat.sub_eq_zero_of_le hle, pow_zero, div_one] at hsplit
      rw [Int.cast_mul, Int.cast_natCast, cast_tenTo, hsplit, value, value, hmul]
      field_simp
    rw [hvalue, ← Int.cast_abs, ← Nat.cast_natAbs] at h
    generalize (a.coefficient / b.coefficient * tenTo (b.scale - a.scale) : Int) = quotient at h ⊢
    have hcast : ((quotient.natAbs : Nat) : ℚ) < ((2 ^ 96 : Nat) : ℚ) := by
      push_cast
      linarith
    exact_mod_cast hcast

theorem exists_div? (hb : b.value ≠ 0) (h : |a.value / b.value| < 2 ^ 96 - 1 / 2) :
    ∃ c, a.div? b = some c := by
  have hb' : b.isZero = false := Bool.eq_false_iff.mpr fun hzero => hb (isZero_iff.mp hzero)
  have hbsize : b.size ≠ 0 := ne_of_beq_false hb'
  have hden : 0 < b.size * tenTo a.scale := Nat.mul_pos (Nat.pos_of_ne_zero hbsize) (tenTo_pos _)
  unfold div?
  rw [hb', if_neg Bool.false_ne_true]
  by_cases ha : a.isZero = true
  · exact ⟨zero, if_pos ha⟩
  · rw [if_neg ha]
    by_cases heven : a.coefficient % b.coefficient = 0
    · rw [if_pos heven]
      exact exists_ofParts?_of_even hb' heven h
    · rw [if_neg heven]
      rw [← cast_div] at h
      obtain ⟨c, hc⟩ := exists_nearest?_of_abs_lt hden h maxScale
      simp only [hc]
      cases a.writtenOut? b <;> exact ⟨_, rfl⟩

theorem exists_hundredth (a : Decimal) : ∃ c, a.div? hundred = some c := by
  have hsize := a.abs_value_le
  have hscale : (1 : ℚ) ≤ 10 ^ a.scale := one_le_pow₀ (by norm_num)
  have hle := le_mul_of_one_le_right (abs_nonneg a.value) hscale
  refine exists_div? (by rw [value_hundred]; norm_num) ?_
  rw [value_hundred, abs_div, abs_of_pos (by norm_num : (0 : ℚ) < 100), div_lt_iff₀ (by norm_num)]
  linarith

/-! ### Errors -/

theorem Rounds.abs_sub_le_of_fits {places : Nat} (h : Rounds q a) (hplaces : places ≤ 28)
    (hfits : |q| * 10 ^ places ≤ 2 ^ 96 - 1) : |a.value - q| ≤ 1 / 2 / 10 ^ places := by
  obtain ⟨used, n, hused, -, hunits, hround, hfinest⟩ := h
  have hhalf := abs_sub_mul_le hunits hround
  rw [le_div_iff₀ (by positivity)]
  rcases Nat.lt_or_ge used places with hlt | hge
  · rcases hfinest with hexact | rfl | hcoarse
    · rw [hexact, sub_self, abs_zero, zero_mul]
      norm_num
    · omega
    · have hmore : |q| * 10 ^ (used + 1) ≤ |q| * 10 ^ places :=
        mul_le_mul_of_nonneg_left (pow_le_pow_right₀ (by norm_num) hlt) (abs_nonneg q)
      linarith
  · have hless : (10 : ℚ) ^ places ≤ 10 ^ used := pow_le_pow_right₀ (by norm_num) hge
    exact (mul_le_mul_of_nonneg_left hless (abs_nonneg _)).trans hhalf

theorem abs_hundredth_sub_le (h : a.div? hundred = some c) :
    |c.value - a.value / 100| ≤ 1 / 2 / 10 ^ 28 := by
  have hround := rounds_div? h
  rw [value_hundred] at hround
  have hsize := a.abs_value_le
  have hhundredth : |a.value / 100| = |a.value| / 100 := by
    rw [abs_div, abs_of_pos (by norm_num : (0 : ℚ) < 100)]
  rcases Nat.lt_or_ge 26 a.scale with hfine | hcoarse
  · -- a number with that many places is small
    have hplaces : (10 : ℚ) ^ 27 ≤ 10 ^ a.scale := pow_le_pow_right₀ (by norm_num) hfine
    have hsmall := mul_le_mul_of_nonneg_left hplaces (abs_nonneg a.value)
    refine hround.abs_sub_le_of_fits le_rfl ?_
    rw [hhundredth]
    linarith
  · -- with two places more the digits stay as they are
    have hscaled : ∀ x : ℚ, x / 100 * 10 ^ (a.scale + 2) = x * 10 ^ a.scale := by
      intro x
      rw [pow_add]
      ring
    have hexact : c.value = a.value / 100 := by
      refine hround.eq_of_units (k := a.coefficient) (by omega : a.scale + 2 ≤ 28) ?_ ?_
      · exact (hscaled a.value).trans a.value_mul_scale
      · rw [hhundredth, hscaled]
        exact hsize
    rw [hexact, sub_self, abs_zero]
    positivity

/-- A rounded number is off by half a unit of the 28th place, or by a part in 10²⁸. -/
theorem Rounds.abs_sub_le (h : Rounds q a) : |a.value - q| ≤ (1 / 2 + |q|) / 10 ^ 28 := by
  obtain ⟨places, n, hplaces, -, hunits, hround, hfinest⟩ := h
  have hten : (0 : ℚ) < 10 ^ places := by positivity
  have hhalf := abs_sub_mul_le hunits hround
  have hnonneg := abs_nonneg q
  rw [le_div_iff₀ (by norm_num)]
  rcases hfinest with hexact | rfl | hcoarse
  · rw [hexact, sub_self, abs_zero, zero_mul]
    positivity
  · linarith
  · rw [pow_succ (10 : ℚ) places] at hcoarse
    refine le_of_mul_le_mul_right ?_ hten
    calc |a.value - q| * 10 ^ 28 * 10 ^ places = |a.value - q| * 10 ^ places * 10 ^ 28 := by ring
      _ ≤ 1 / 2 * 10 ^ 28 := mul_le_mul_of_nonneg_right hhalf (by norm_num)
      _ ≤ |q| * 10 ^ places := by linarith
      _ ≤ (1 / 2 + |q|) * 10 ^ places := mul_le_mul_of_nonneg_right (by linarith) hten.le

theorem Rounds.bounds (h : Rounds q a) (hnonneg : 0 ≤ q) :
    q - (1 / 2 + q) / 10 ^ 28 ≤ a.value ∧ a.value ≤ q + (1 / 2 + q) / 10 ^ 28 := by
  have herror := h.abs_sub_le
  rw [abs_of_nonneg hnonneg] at herror
  obtain ⟨hlow, hhigh⟩ := abs_le.mp herror
  exact ⟨by linarith, by linarith⟩

/-- A number is off another by no more than a part of it. -/
def IsWithin (part exact x : ℚ) : Prop := |x - exact| ≤ part * exact

namespace IsWithin

variable {part part' exact exact' x y : ℚ}

theorem mono (h : IsWithin part exact x) (hle : part ≤ part') (hexact : 0 ≤ exact) :
    IsWithin part' exact x := h.trans (mul_le_mul_of_nonneg_right hle hexact)

theorem ge (h : IsWithin part exact x) : (1 - part) * exact ≤ x := by
  have hlow := (abs_le.mp h).1
  linarith

theorem le (h : IsWithin part exact x) : x ≤ (1 + part) * exact := by
  have hhigh := (abs_le.mp h).2
  linarith

theorem trans (h : IsWithin part exact x) (h' : IsWithin part' x y) (hpart' : 0 ≤ part') :
    IsWithin (part + part' + part * part') exact y := by
  have hle := mul_le_mul_of_nonneg_left h.le hpart'
  calc |y - exact| ≤ |y - x| + |x - exact| := abs_sub_le _ _ _
    _ ≤ part' * x + part * exact := add_le_add h' h
    _ ≤ (part + part' + part * part') * exact := by linarith

theorem mul (h : IsWithin part exact x) (h' : IsWithin part' exact' y) (hexact : 0 ≤ exact)
    (hexact' : 0 ≤ exact') :
    IsWithin (part + part' + part * part') (exact * exact') (x * y) := by
  have hsplit : x * y - exact * exact' =
      (x - exact) * (y - exact') + exact * (y - exact') + (x - exact) * exact' := by ring
  have hboth := mul_le_mul h h' (abs_nonneg _) ((abs_nonneg _).trans h)
  have hfirst := mul_le_mul_of_nonneg_left h' hexact
  have hsecond := mul_le_mul_of_nonneg_right h hexact'
  unfold IsWithin
  calc |x * y - exact * exact'|
      ≤ |x - exact| * |y - exact'| + exact * |y - exact'| + |x - exact| * exact' := by
        rw [hsplit]
        refine (abs_add_three _ _ _).trans_eq ?_
        rw [abs_mul, abs_mul, abs_mul, abs_of_nonneg hexact, abs_of_nonneg hexact']
    _ ≤ (part + part' + part * part') * (exact * exact') := by linarith

theorem div_left {c : ℚ} (hc : 0 < c) (h : IsWithin part (c * exact) x) :
    IsWithin part exact (x / c) := by
  have hdiv : x / c - exact = (x - c * exact) / c := by field_simp
  unfold IsWithin at h ⊢
  rw [hdiv, abs_div, abs_of_pos hc, div_le_iff₀ hc]
  linarith

theorem of_common (h : IsWithin part exact x) (h' : IsWithin part' exact y) (hpart : 0 ≤ part)
    (hpart' : 0 ≤ part') (hhalf : part' ≤ 1 / 2) (hexact : 0 ≤ exact) :
    IsWithin (2 * (part + part')) y x := by
  have hy : exact / 2 ≤ y := by
    have hmul := mul_le_mul_of_nonneg_right hhalf hexact
    have hlow := h'.ge
    linarith
  have hboth := mul_le_mul_of_nonneg_left hy (add_nonneg hpart hpart')
  have h'' : |exact - y| ≤ part' * exact := by
    rw [abs_sub_comm]
    exact h'
  calc |x - y| ≤ |x - exact| + |exact - y| := abs_sub_le _ _ _
    _ ≤ part * exact + part' * exact := add_le_add h h''
    _ ≤ 2 * (part + part') * y := by linarith

theorem one_div (h : IsWithin part exact x) (hpart : part ≤ 1 / 2) (hexact : 0 < exact) :
    IsWithin (2 * part) (1 / exact) (1 / x) := by
  have hhalf : exact / 2 ≤ x := by
    have hlow := h.ge
    have hmore : exact / 2 ≤ (1 - part) * exact := by
      have hmul := mul_le_mul_of_nonneg_right hpart hexact.le
      linarith
    exact hmore.trans hlow
  have hx : 0 < x := by linarith
  have hprod : 0 < x * exact := mul_pos hx hexact
  have hnonneg : 0 ≤ part := by
    have habs := (abs_nonneg _).trans h
    exact nonneg_of_mul_nonneg_left habs hexact
  have hdiff : 1 / x - 1 / exact = (exact - x) / (x * exact) := by
    field_simp
  unfold IsWithin
  rw [hdiff, abs_div, abs_of_pos hprod, abs_sub_comm, div_le_iff₀ hprod]
  calc |x - exact| ≤ part * exact := h
    _ ≤ 2 * part * x := by
        have hmul := mul_le_mul_of_nonneg_left hhalf hnonneg
        linarith
    _ = 2 * part * (1 / exact) * (x * exact) := by
        field_simp

end IsWithin

/-- A number whose first digit stands at a place is rounded to as many digits as remain. -/
theorem Rounds.isWithin (h : Rounds q a) (places : Nat) (hplaces : 1 ≤ places)
    (hq : 1 / 10 ^ places ≤ q) : IsWithin (10 ^ places / 10 ^ 28) q a.value := by
  have hten : (10 : ℚ) ≤ 10 ^ places := by
    calc (10 : ℚ) = 10 ^ 1 := (pow_one _).symm
      _ ≤ 10 ^ places := pow_le_pow_right₀ (by norm_num) hplaces
  have hpos : (0 : ℚ) < 10 ^ places := by positivity
  have hnonneg : 0 ≤ q := (by positivity : (0 : ℚ) ≤ 1 / 10 ^ places).trans hq
  have hone : 1 ≤ 10 ^ places * q := by rwa [div_le_iff₀' hpos] at hq
  have hsmall : 10 * q ≤ 10 ^ places * q := mul_le_mul_of_nonneg_right hten hnonneg
  have herror := h.abs_sub_le
  rw [abs_of_nonneg hnonneg] at herror
  refine herror.trans ?_
  rw [div_mul_eq_mul_div]
  exact div_le_div_of_nonneg_right (by linarith) (by norm_num)

end Bureau.Decimal
