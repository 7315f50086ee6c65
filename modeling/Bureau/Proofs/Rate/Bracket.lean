import Bureau.Proofs.Attempt
import Bureau.Proofs.Decimal.Rounding
import Bureau.Proofs.Provider.Settings
import Bureau.Rate.Market
import Mathlib.Tactic.Ring

/-!
Bid and ask around a mid. Half a spread moves a rounded price off its mid exactly when it is more than
half a unit of the last of 28 places, or just half of one beside an odd mid; otherwise bid and ask fall
back on the mid.
-/

set_option autoImplicit false

namespace Bureau

open Decimal

/-- Half a spread is wide enough to show at 28 places around a mid. -/
def ShowsAround (mid half : Decimal) : Prop :=
  1 / 2 < mid.value * half.value * 10 ^ 28 ∨
    (mid.value * half.value * 10 ^ 28 = 1 / 2 ∧ ∃ k : Int, mid.value * 10 ^ 28 = k ∧ Odd k)

namespace Decimal.Rounds

variable {a c : Decimal} {x : ℚ}

private theorem lt_iff_of_fine {n : Int} (hn : c.value * 10 ^ 28 = n)
    (hround : IsHalfEven ((a.value - x) * 10 ^ 28) n) :
    c < a ↔ 1 / 2 < x * 10 ^ 28 ∨
      (x * 10 ^ 28 = 1 / 2 ∧ ∃ k : Int, a.value * 10 ^ 28 = k ∧ Odd k) := by
  obtain ⟨k, hk⟩ := a.exists_units a.scale_le
  have hten : (0 : ℚ) < 10 ^ 28 := by positivity
  have hless : c < a ↔ n < k := by
    rw [Decimal.lt_iff, ← mul_lt_mul_iff_left₀ hten, hn, hk, Int.cast_lt]
  have hodd : (∃ l : Int, a.value * 10 ^ 28 = l ∧ Odd l) ↔ Odd k := by
    constructor
    · rintro ⟨l, hl, hodd⟩
      have hsame : l = k := by exact_mod_cast hl.symm.trans hk
      rwa [← hsame]
    · intro hodd
      exact ⟨k, hk, hodd⟩
  rw [hless, hround.lt_iff, hodd, sub_mul, hk]
  constructor
  · rintro (hlt | ⟨htie, hodd⟩)
    · exact .inl (by linarith)
    · exact .inr ⟨by linarith, hodd⟩
  · rintro (hlt | ⟨htie, hodd⟩)
    · exact .inl (by linarith)
    · exact .inr ⟨by linarith, hodd⟩

/-- Taking `x` off lowers a decimal, whatever the places rounded to, exactly as it does at the finest
places: coarser places make no exception if what is taken off counts there too. -/
theorem lt_iff_of_sub (h : Rounds (a.value - x) c) (hx : 0 ≤ x)
    (hcoarse : ∀ places, 2 ^ 96 - 1 / 2 ≤ |a.value - x| * 10 ^ (places + 1) →
      x = 0 ∨ 1 / 2 < x * 10 ^ places) :
    c < a ↔ 1 / 2 < x * 10 ^ 28 ∨
      (x * 10 ^ 28 = 1 / 2 ∧ ∃ k : Int, a.value * 10 ^ 28 = k ∧ Odd k) := by
  obtain ⟨places, n, hplaces, hsize, hn, hround, hfinest⟩ := id h
  rcases hfinest with hexact | rfl | hgreat
  · obtain ⟨l, hl⟩ := c.exists_units c.scale_le
    refine lt_iff_of_fine hl (.of_eq ?_)
    rw [← hexact, hl]
  · exact lt_iff_of_fine hn hround
  · rcases hcoarse places hgreat with rfl | hmoves
    · have hsame : c.value = a.value := h.value_eq (of_value (sub_zero _).symm)
      rw [Decimal.lt_iff, hsame]
      norm_num
    · have hpos : (0 : ℚ) < 10 ^ places := by positivity
      have hmore : x * 10 ^ places ≤ x * 10 ^ 28 :=
        mul_le_mul_of_nonneg_left (pow_le_pow_right₀ (by norm_num) hplaces) hx
      have hhigh := hround.le_add
      rw [sub_mul] at hhigh
      have hlt : c < a := by
        rw [Decimal.lt_iff]
        refine lt_of_mul_lt_mul_right ?_ hpos.le
        rw [hn]
        linarith
      exact iff_of_true hlt (.inl (by linarith))

end Decimal.Rounds

/-! ### Both sides of a mid -/

section Sides

variable {mid half low high bid ask : Decimal}

private theorem eq_zero_or_counts (hmid : 0 ≤ mid.value) (hhalf : 0 ≤ half.value) {side : ℚ}
    (hside : |side| ≤ mid.value * (1 + half.value)) {places : Nat}
    (hgreat : 2 ^ 96 - 1 / 2 ≤ |side| * 10 ^ (places + 1)) :
    mid.value * half.value = 0 ∨ 1 / 2 < mid.value * half.value * 10 ^ places := by
  by_cases hzero : half.value = 0
  · exact .inl (by rw [hzero, mul_zero])
  right
  obtain ⟨k, hk⟩ := half.exists_units half.scale_le
  have hunit : 1 ≤ half.value * 10 ^ 28 := by
    have hpos : 0 < half.value * 10 ^ 28 := mul_pos (lt_of_le_of_ne hhalf (Ne.symm hzero)) (by norm_num)
    rw [hk] at hpos ⊢
    have hint : 0 < k := by exact_mod_cast hpos
    exact_mod_cast hint
  have hten : (0 : ℚ) < 10 ^ places := by positivity
  have hscaled : 0 ≤ mid.value * 10 ^ places := mul_nonneg hmid hten.le
  have hsize : 2 ^ 96 - 1 / 2 ≤ mid.value * 10 ^ places * (1 + half.value) * 10 := by
    calc (2 : ℚ) ^ 96 - 1 / 2 ≤ |side| * 10 ^ (places + 1) := hgreat
      _ ≤ mid.value * (1 + half.value) * 10 ^ (places + 1) :=
          mul_le_mul_of_nonneg_right hside (by positivity)
      _ = mid.value * 10 ^ places * (1 + half.value) * 10 := by ring
  have hpart : mid.value * 10 ^ places * (1 + half.value) ≤
      mid.value * 10 ^ places * (half.value * (10 ^ 28 + 1)) := by
    refine mul_le_mul_of_nonneg_left ?_ hscaled
    linarith
  have hcounts : mid.value * 10 ^ places * (half.value * (10 ^ 28 + 1)) =
      mid.value * half.value * 10 ^ places * (10 ^ 28 + 1) := by ring
  linarith

/-- Bid and ask bracket a mid where half the spread shows around it, and only there. -/
theorem bracket_iff (hmid : 0 ≤ mid.value) (hhalf : 0 ≤ half.value)
    (hbid : Rounds (mid.value * (1 - half.value)) bid)
    (hask : Rounds (mid.value * (1 + half.value)) ask) (hone : half.value ≤ 1) :
    (bid < mid ↔ ShowsAround mid half) ∧ (mid < ask ↔ ShowsAround mid half) := by
  have hpart : 0 ≤ mid.value * half.value := mul_nonneg hmid hhalf
  constructor
  · have hside : mid.value * (1 - half.value) = mid.value - mid.value * half.value := by ring
    rw [hside] at hbid
    refine hbid.lt_iff_of_sub hpart fun places hgreat => ?_
    refine eq_zero_or_counts hmid hhalf ?_ hgreat
    rw [abs_le]
    have hless : mid.value * half.value ≤ mid.value := mul_le_of_le_one_right hmid hone
    constructor <;> linarith
  · have hside : -(mid.value * (1 + half.value)) = mid.neg.value - mid.value * half.value := by
      rw [value_neg]
      ring
    have hflip : mid < ask ↔ ask.neg < mid.neg := by
      rw [Decimal.lt_iff, Decimal.lt_iff, value_neg, value_neg, neg_lt_neg_iff]
    have hodd : (∃ k : Int, mid.neg.value * 10 ^ 28 = k ∧ Odd k) ↔
        ∃ k : Int, mid.value * 10 ^ 28 = k ∧ Odd k := by
      rw [value_neg]
      constructor
      · rintro ⟨k, hk, hodd⟩
        exact ⟨-k, by push_cast; linarith, hodd.neg⟩
      · rintro ⟨k, hk, hodd⟩
        exact ⟨-k, by push_cast; linarith, hodd.neg⟩
    have hflipped := hask.neg
    rw [hside] at hflipped
    rw [hflip, ShowsAround, ← hodd]
    refine hflipped.lt_iff_of_sub hpart fun places hgreat => ?_
    refine eq_zero_or_counts hmid hhalf ?_ hgreat
    rw [← hside, abs_neg, abs_of_nonneg (by positivity)]

theorem ShowsAround.mid_pos (h : ShowsAround mid half) (hmid : 0 ≤ mid.value) : 0 < mid.value := by
  refine lt_of_le_of_ne hmid fun hzero => ?_
  rw [ShowsAround, ← hzero] at h
  norm_num at h

theorem half_bounds {spread : Decimal} (hspread : MarketSettings.IsSpread spread)
    (h : spread.div? twoHundred = some half) : 0 ≤ half.value ∧ half.value ≤ 1 := by
  obtain ⟨hpos, hlt⟩ := hspread
  have hrounds := rounds_div? h
  rw [value_twoHundred] at hrounds
  exact hrounds.unit_bounds (by positivity) ((div_le_one (by norm_num)).mpr hlt.le)

theorem value_of_one_sub? (h0 : 0 ≤ half.value) (h1 : half.value ≤ 1)
    (h : one.sub? half = some low) : low.value = 1 - half.value := by
  rw [value_of_sub? h, value_one]
  rw [value_one, abs_of_nonneg (by linarith)]
  linarith

theorem value_of_one_add? (h0 : 0 ≤ half.value) (h1 : half.value ≤ 1)
    (h : one.add? half = some high) : high.value = 1 + half.value := by
  rw [value_of_add? h, value_one]
  rw [value_one, abs_of_nonneg (by linarith)]
  linarith

end Sides

namespace Rate

variable {pair : CurrencyPair} {mid spread : Decimal} {validFor : Duration} {source : String}
  {now : Instant} {r : Rate}

theorem make_eq_ok (h : make pair mid spread validFor source now = .ok r) :
    r.mid = mid ∧ r.spreadPercent = spread ∧
      ∃ half low high, spread.div? twoHundred = some half ∧ one.sub? half = some low ∧
        mid.mul? low = some r.bid ∧ one.add? half = some high ∧ mid.mul? high = some r.ask := by
  obtain ⟨half, hhalf, h⟩ := Attempt.exists_of_bind_eq_ok h
  obtain ⟨bid, hbid, h⟩ := Attempt.exists_of_bind_eq_ok h
  obtain ⟨ask, hask, h⟩ := Attempt.exists_of_bind_eq_ok h
  obtain ⟨last, hlast, h⟩ := Attempt.exists_of_bind_eq_ok h
  cases h
  obtain ⟨low, hlow, hbid⟩ := Option.bind_eq_some_iff.mp (Attempt.unless_eq_ok hbid)
  obtain ⟨high, hhigh, hask⟩ := Option.bind_eq_some_iff.mp (Attempt.unless_eq_ok hask)
  exact ⟨rfl, rfl, half, low, high, Attempt.unless_eq_ok hhalf, hlow, hbid, hhigh, hask⟩

theorem exists_make (pair : CurrencyPair) (mid spread : Decimal) (validFor : Duration)
    (source : String) (now : Instant)
    (h : (make pair mid spread validFor source now).isOk = true) :
    ∃ r, make pair mid spread validFor source now = .ok r ∧ r.mid = mid := by
  cases hmake : make pair mid spread validFor source now with
  | error c =>
      rw [hmake] at h
      cases h
  | ok r => exact ⟨r, rfl, (make_eq_ok hmake).1⟩

theorem make_brackets (h : make pair mid spread validFor source now = .ok r)
    (hmid : 0 ≤ mid.value) (hspread : MarketSettings.IsSpread spread) :
    ∃ half, r.spreadPercent.div? twoHundred = some half ∧ r.bid ≤ r.mid ∧ r.mid ≤ r.ask ∧
      (zero < r.mid ∧ r.bid < r.mid ∧ r.mid < r.ask ↔ ShowsAround r.mid half) := by
  obtain ⟨rfl, rfl, half, low, high, hhalf, hlow, hbid, hhigh, hask⟩ := make_eq_ok h
  obtain ⟨h0, h1⟩ := half_bounds hspread hhalf
  have hbid' := rounds_mul? hbid
  have hask' := rounds_mul? hask
  rw [value_of_one_sub? h0 h1 hlow] at hbid'
  rw [value_of_one_add? h0 h1 hhigh] at hask'
  obtain ⟨hbelow, habove⟩ := bracket_iff hmid h0 hbid' hask' h1
  refine ⟨half, hhalf, ?_, ?_, ?_⟩
  · exact hbid'.le_of_le (mul_le_of_le_one_right hmid (by linarith))
  · exact hask'.ge_of_ge (le_mul_of_one_le_right hmid (by linarith))
  · constructor
    · rintro ⟨-, hless, -⟩
      exact hbelow.mp hless
    · intro hshows
      have hpos : zero < r.mid := zero_lt_iff.mpr (hshows.mid_pos hmid)
      exact ⟨hpos, hbelow.mpr hshows, habove.mpr hshows⟩

end Rate

end Bureau
