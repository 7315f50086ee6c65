import Bureau.Proofs.Decimal.Precision
import Bureau.Proofs.Rate.Bracket

/-!
How near a rate comes to exact arithmetic. Around a mid that is neither tiny nor huge, with an ordinary
spread, bid and ask can be written down and lie apart by the spread as far as thirteen digits show it.
-/

set_option autoImplicit false

namespace Bureau

open Decimal

/-- A rate agrees with an exact mid and a spread in percent. -/
structure Rate.IsNear (exact spread : ℚ) (r : Rate) : Prop where
  mid : IsWithin (1 / 10 ^ 12) exact r.mid.value
  width : IsWithin (1 / 10 ^ 12) (exact * spread / 100) (r.ask.value - r.bid.value)
  points : ∃ points, r.spreadPoints = .ok points ∧ |points.value - 100 * spread| ≤ 1 / 10 ^ 9

/-- A spread from a hundredth of a percent to ten percent. -/
structure MarketSettings.IsOrdinary (spread : Decimal) : Prop where
  ge : 1 / 100 ≤ spread.value
  le : spread.value ≤ 10

theorem MarketSettings.isOrdinary_iff {spread : Decimal} :
    IsOrdinary spread ↔
      (⟨false, 1, 2, by decide, by decide⟩ : Decimal) ≤ spread ∧
        spread ≤ ⟨false, 10, 0, by decide, by decide⟩ := by
  have hlow : value ⟨false, 1, 2, by decide, by decide⟩ = 1 / 100 := by norm_num [value, coefficient]
  have hhigh : value ⟨false, 10, 0, by decide, by decide⟩ = 10 := by norm_num [value, coefficient]
  rw [Decimal.le_iff, Decimal.le_iff, hlow, hhigh]
  exact ⟨fun h => ⟨h.ge, h.le⟩, fun h => ⟨h.1, h.2⟩⟩

theorem MarketSettings.IsOrdinary.isSpread {spread : Decimal} (h : IsOrdinary spread) :
    IsSpread spread := by
  have hge := h.ge
  have hle := h.le
  constructor <;> linarith

namespace Rate

variable {pair : CurrencyPair} {mid spread half low high bid ask : Decimal} {validFor : Duration}
  {source : String} {now : Instant} {r : Rate}

private theorem exists_halves (hspread : MarketSettings.IsSpread spread) :
    ∃ half low high, spread.div? twoHundred = some half ∧ one.sub? half = some low ∧
      one.add? half = some high ∧ low.value = 1 - half.value ∧ high.value = 1 + half.value ∧
      0 ≤ half.value ∧ half.value ≤ 1 := by
  obtain ⟨hpos, hlt⟩ := hspread
  obtain ⟨half, hhalf⟩ := exists_div? (a := spread) (b := twoHundred)
    (by rw [value_twoHundred]; norm_num) (by
      rw [value_twoHundred, abs_of_nonneg (by positivity)]
      linarith)
  obtain ⟨h0, h1⟩ := half_bounds ⟨hpos, hlt⟩ hhalf
  obtain ⟨low, hlow⟩ := exists_sub? (a := one) (b := half) (by
    rw [value_one, abs_of_nonneg (by linarith)]
    linarith)
  obtain ⟨high, hhigh⟩ := exists_add? (a := one) (b := half) (by
    rw [value_one, abs_of_nonneg (by linarith)]
    linarith)
  exact ⟨half, low, high, hhalf, hlow, hhigh, value_of_one_sub? h0 h1 hlow,
    value_of_one_add? h0 h1 hhigh, h0, h1⟩

theorem exists_make_eq (pair : CurrencyPair) (validFor : Duration) (source : String) (now : Instant)
    (h0 : 0 ≤ mid.value) (hle : mid.value ≤ 3 * 10 ^ 28) (hspread : MarketSettings.IsSpread spread) :
    ∃ half bid ask, spread.div? twoHundred = some half ∧ 0 ≤ half.value ∧ half.value ≤ 1 ∧
      Rounds (mid.value * (1 - half.value)) bid ∧ Rounds (mid.value * (1 + half.value)) ask ∧
      make pair mid spread validFor source now =
        (Crash.calendar.unless (now.add? validFor)).map fun last =>
          ⟨pair, mid, bid, ask, spread, source, now, last⟩ := by
  obtain ⟨half, low, high, hhalf, hsub, hadd, hlow, hhigh, hhalf0, hhalf1⟩ := exists_halves hspread
  have hpart : mid.value * half.value ≤ mid.value := mul_le_of_le_one_right h0 hhalf1
  have hpart' : 0 ≤ mid.value * half.value := mul_nonneg h0 hhalf0
  obtain ⟨bid, hbid⟩ := exists_mul? (a := mid) (b := low) (by
    rw [hlow, abs_of_nonneg (mul_nonneg h0 (by linarith))]
    linarith)
  obtain ⟨ask, hask⟩ := exists_mul? (a := mid) (b := high) (by
    rw [hhigh, abs_of_nonneg (mul_nonneg h0 (by linarith))]
    linarith)
  refine ⟨half, bid, ask, hhalf, hhalf0, hhalf1, hlow ▸ rounds_mul? hbid, hhigh ▸ rounds_mul? hask,
    ?_⟩
  have hbelow : (one.sub? half).bind mid.mul? = some bid := by rw [hsub, Option.bind_some, hbid]
  have habove : (one.add? half).bind mid.mul? = some ask := by rw [hadd, Option.bind_some, hask]
  simp only [make, hhalf, Crash.unless, Attempt.ok_bind, hbelow, habove]
  cases now.add? validFor <;> rfl

/-- The distance between bid and ask in exact numbers, from the errors made on the way. -/
theorem isWithin_width {m s h b a : ℚ} (hm : 3 / 10 ^ 11 ≤ m) (hs : 1 / 100 ≤ s) (h1 : |h| ≤ 1)
    (hh : |h - s / 200| ≤ 1 / 10 ^ 28) (hb : |b - m * (1 - h)| ≤ (1 / 2 + |m * (1 - h)|) / 10 ^ 28)
    (ha : |a - m * (1 + h)| ≤ (1 / 2 + |m * (1 + h)|) / 10 ^ 28) :
    IsWithin (1 / 10 ^ 13) (m * s / 100) (a - b) := by
  have hpos : 0 ≤ m := by linarith
  obtain ⟨hneg1, hpos1⟩ := abs_le.mp h1
  have hless : |m * (1 - h)| = m - m * h := by
    rw [abs_of_nonneg (mul_nonneg hpos (by linarith))]
    ring
  have hmore : |m * (1 + h)| = m + m * h := by
    rw [abs_of_nonneg (mul_nonneg hpos (by linarith))]
    ring
  have hside : |2 * m * (h - s / 200)| ≤ 2 * m * (1 / 10 ^ 28) := by
    rw [abs_mul, abs_of_nonneg (by linarith)]
    exact mul_le_mul_of_nonneg_left hh (by linarith)
  have hspread : m * (1 / 100) ≤ m * s := mul_le_mul_of_nonneg_left hs hpos
  have hsplit : a - b - m * s / 100 =
      (a - m * (1 + h)) - (b - m * (1 - h)) + 2 * m * (h - s / 200) := by ring
  rw [hless] at hb
  rw [hmore] at ha
  unfold IsWithin
  calc |a - b - m * s / 100|
      ≤ |a - m * (1 + h)| + |b - m * (1 - h)| + |2 * m * (h - s / 200)| := by
        rw [hsplit]
        exact (abs_add_le _ _).trans (add_le_add_left (abs_sub _ _) _)
    _ ≤ 1 / 10 ^ 13 * (m * s / 100) := by linarith

theorem exists_make_of_ordinary (pair : CurrencyPair) (validFor : Duration) (source : String)
    (now : Instant) (hlow : 3 / 10 ^ 11 ≤ mid.value) (hhigh : mid.value ≤ 10 ^ 11)
    (hspread : MarketSettings.IsOrdinary spread) :
    (now.add? validFor = none ∧
      make pair mid spread validFor source now = .error .calendar) ∨
    ∃ r, make pair mid spread validFor source now = .ok r ∧ r.mid = mid ∧
      IsWithin (1 / 10 ^ 13) (mid.value * spread.value / 100) (r.ask.value - r.bid.value) := by
  obtain ⟨half, bid, ask, hhalf, h0, h1, hbid, hask, hmake⟩ :=
    exists_make_eq pair validFor source now (by linarith) (by linarith) hspread.isSpread
  rw [hmake]
  cases now.add? validFor with
  | none => exact .inl ⟨rfl, rfl⟩
  | some last =>
      refine .inr ⟨_, rfl, rfl, ?_⟩
      have hge := hspread.ge
      have hle := hspread.le
      have herror := (rounds_div? hhalf).abs_sub_le
      rw [value_twoHundred, abs_of_nonneg (a := spread.value / 200) (by linarith)] at herror
      exact isWithin_width hlow hge (by rw [abs_of_nonneg h0]; exact h1)
        (herror.trans (by linarith)) hbid.abs_sub_le hask.abs_sub_le

private theorem exists_spreadPoints {s : ℚ} (hlow : 3 / 10 ^ 11 ≤ r.mid.value) (hs : 1 / 100 ≤ s)
    (hs' : s ≤ 10)
    (hwidth : IsWithin (1 / 10 ^ 13) (r.mid.value * s / 100) (r.ask.value - r.bid.value))
    (hhigh : r.mid.value ≤ 10 ^ 11) :
    ∃ points, r.spreadPoints = .ok points ∧ |points.value - 100 * s| ≤ 1 / 10 ^ 9 := by
  have hpos : 0 < r.mid.value := by linarith
  have hexact : 0 < r.mid.value * s := mul_pos hpos (by linarith)
  have hms : r.mid.value * (1 / 100) ≤ r.mid.value * s := mul_le_mul_of_nonneg_left hs hpos.le
  have hms' : r.mid.value * s ≤ r.mid.value * 10 := mul_le_mul_of_nonneg_left hs' hpos.le
  have hge := hwidth.ge
  have hle := hwidth.le
  obtain ⟨width, hsub⟩ := exists_sub? (a := r.ask) (b := r.bid) (by
    rw [abs_of_nonneg (by linarith)]
    linarith)
  have hround := (rounds_sub? hsub).isWithin 15 (by norm_num) (by linarith)
  -- the width as a part of the mid
  have hwidth' := hwidth.trans hround (by norm_num)
  rw [mul_div_assoc] at hwidth'
  have hpart : IsWithin (3 / 10 ^ 13) (s / 100) (width.value / r.mid.value) :=
    (hwidth'.div_left hpos).mono (by norm_num) (by linarith)
  have hge' := hpart.ge
  have hle' := hpart.le
  obtain ⟨quotient, hdiv⟩ := exists_div? (a := width) (b := r.mid) hpos.ne' (by
    rw [abs_of_nonneg (by linarith)]
    linarith)
  have hquotient := hpart.trans
    ((rounds_div? hdiv).isWithin 5 (by norm_num) (by linarith)) (by norm_num)
  have hge'' := hquotient.ge
  have hle'' := hquotient.le
  have hten : tenThousand.value = 10000 := by norm_num [value, coefficient, tenThousand]
  obtain ⟨points, hmul⟩ := exists_mul? (a := quotient) (b := tenThousand) (by
    rw [hten, abs_of_nonneg (by linarith)]
    linarith)
  obtain ⟨hlow1, hhigh1⟩ := (rounds_mul? hmul).bounds (by
    rw [hten]
    linarith)
  rw [hten] at hlow1 hhigh1
  refine ⟨points, ?_, ?_⟩
  · have hzero : r.mid.isZero = false :=
      Bool.eq_false_iff.mpr fun hzero => hpos.ne' (isZero_iff.mp hzero)
    simp only [spreadPoints, hzero, hsub, hdiv, hmul, Option.bind_eq_bind, Option.bind_some]
    rfl
  · unfold IsWithin at hquotient
    obtain ⟨hlow2, hhigh2⟩ := abs_le.mp hquotient
    rw [abs_le]
    constructor <;> linarith

theorem isNear_of_isWithin {exact s : ℚ} (hexact : 3 / 10 ^ 11 ≤ r.mid.value)
    (hexact' : r.mid.value ≤ 10 ^ 11) (hs : 1 / 100 ≤ s) (hs' : s ≤ 10) (hpos : 0 < exact)
    (hmid : IsWithin (1 / 10 ^ 16) exact r.mid.value)
    (hwidth : IsWithin (1 / 10 ^ 13) (r.mid.value * s / 100) (r.ask.value - r.bid.value)) :
    r.IsNear exact s where
  mid := hmid.mono (by norm_num) hpos.le
  width := by
    have hscale : IsWithin (1 / 10 ^ 16) (exact * s / 100) (r.mid.value * s / 100) := by
      have hfactor : r.mid.value * s / 100 - exact * s / 100 =
          (r.mid.value - exact) * (s / 100) := by ring
      unfold IsWithin at hmid ⊢
      rw [hfactor, abs_mul, abs_of_nonneg (show 0 ≤ s / 100 by linarith)]
      calc |r.mid.value - exact| * (s / 100) ≤ 1 / 10 ^ 16 * exact * (s / 100) :=
            mul_le_mul_of_nonneg_right hmid (by linarith)
        _ = 1 / 10 ^ 16 * (exact * s / 100) := by ring
    exact (hscale.trans hwidth (by norm_num)).mono (by norm_num) (by positivity)
  points := exists_spreadPoints hexact hs hs' hwidth hexact'

end Rate

end Bureau
