import Bureau.Proofs.Decimal.Rounding

/-!
Numbers rounded to a number of places. Rounding goes to the nearest unit of the last place, so that it
keeps the order of numbers and leaves alone what is a whole number of units.
-/

set_option autoImplicit false

namespace Bureau.Decimal

variable {a b c : Decimal}

private theorem isHalfEven_roundTo {places : Nat} (h : places < a.scale) :
    IsHalfEven (a.value * 10 ^ places) (a.roundTo places).coefficient ∧
      (a.roundTo places).scale = places := by
  have hten : 0 < tenTo (a.scale - places) := tenTo_pos _
  have hsplit : (10 : ℚ) ^ a.scale = 10 ^ places * 10 ^ (a.scale - places) := by
    rw [← pow_add, Nat.add_sub_cancel' h.le]
  have hscaled : a.value * 10 ^ places = a.coefficient / (tenTo (a.scale - places) : Nat) := by
    have hpos : (10 : ℚ) ^ (a.scale - places) ≠ 0 := by positivity
    rw [cast_tenTo, eq_div_iff hpos, mul_assoc, ← hsplit, value_mul_scale]
  have hcoefficient : (a.roundTo places).coefficient =
      halfEvenInt a.coefficient (tenTo (a.scale - places)) := by
    have habs := natAbs_coefficient a
    have hzero : a.isZero = true ↔ a.size = 0 := beq_iff_eq
    have hnone := halfEven_le a.size (tenTo (a.scale - places)) hten
    rw [halfEvenInt, habs, roundTo, dif_pos h]
    change (if (a.negative && (a.isZero || halfEven a.size (tenTo (a.scale - places)) != 0)) = true
      then -(halfEven a.size (tenTo (a.scale - places)) : Int)
      else halfEven a.size (tenTo (a.scale - places))) = _
    unfold coefficient
    generalize halfEven a.size (tenTo (a.scale - places)) = size at hnone ⊢
    cases hsign : a.negative with
    | false => simp
    | true =>
        by_cases hsize : a.size = 0
        · have hrounded : size = 0 := by omega
          simp [hsize, hrounded]
        · by_cases hrounded : size = 0
          · simp [hzero, hsize, hrounded]
          · simp [hzero, hsize, hrounded]
  constructor
  · rw [hcoefficient, hscaled]
    exact isHalfEven_halfEvenInt _ hten
  · rw [roundTo, dif_pos h]

private theorem exists_units_roundTo (a : Decimal) (places : Nat) :
    ∃ n : Int, (a.roundTo places).value * 10 ^ places = n ∧ IsHalfEven (a.value * 10 ^ places) n := by
  by_cases h : places < a.scale
  · obtain ⟨hround, hscale⟩ := isHalfEven_roundTo h
    have hunits := value_mul_scale (a.roundTo places)
    rw [hscale] at hunits
    exact ⟨_, hunits, hround⟩
  · obtain ⟨n, hn⟩ := a.exists_units (Nat.not_lt.mp h)
    rw [roundTo, dif_neg h]
    exact ⟨n, hn, .of_eq hn⟩

theorem scale_roundTo_le (a : Decimal) (places : Nat) : (a.roundTo places).scale ≤ places := by
  by_cases h : places < a.scale
  · exact (isHalfEven_roundTo h).2.le
  · rw [roundTo, dif_neg h]
    exact Nat.not_lt.mp h

theorem abs_roundTo_sub_le (a : Decimal) (places : Nat) :
    |(a.roundTo places).value - a.value| ≤ 1 / 2 / 10 ^ places := by
  obtain ⟨n, hunits, hround⟩ := a.exists_units_roundTo places
  rw [le_div_iff₀ (by positivity)]
  exact Rounds.abs_sub_mul_le hunits hround

theorem value_roundTo_of_units {places : Nat} {n : Int} (h : a.value * 10 ^ places = n) :
    (a.roundTo places).value = a.value := by
  obtain ⟨m, hunits, hround⟩ := a.exists_units_roundTo places
  rw [hround.unique (.of_eq h), ← h] at hunits
  exact mul_right_cancel₀ (by positivity) hunits

@[simp] theorem roundTo_zero (places : Nat) : zero.roundTo places = zero :=
  dif_neg (Nat.not_lt_zero places)

/-! ### Order -/

theorem roundTo_mono (h : a ≤ b) (places : Nat) : a.roundTo places ≤ b.roundTo places := by
  obtain ⟨n, hunitsa, hrounda⟩ := a.exists_units_roundTo places
  obtain ⟨m, hunitsb, hroundb⟩ := b.exists_units_roundTo places
  exact le_iff.mpr (Rounds.le_of_units hunitsa hunitsb hrounda hroundb (le_iff.mp h))

theorem zero_le_roundTo (h : zero ≤ a) (places : Nat) : zero ≤ a.roundTo places := by
  have hround := roundTo_mono h places
  rwa [roundTo_zero] at hround

theorem value_roundTo_max (a b : Decimal) (places : Nat) :
    ((a.max b).roundTo places).value =
      Max.max (a.roundTo places).value (b.roundTo places).value := by
  unfold Decimal.max
  split_ifs with h
  · have hle : a ≤ b := le_iff.mpr (lt_iff.mp h).le
    exact (max_eq_right (le_iff.mp (roundTo_mono hle places))).symm
  · have hle : b ≤ a := le_iff.mpr (not_lt.mp fun hlt => h (lt_iff.mpr hlt))
    exact (max_eq_left (le_iff.mp (roundTo_mono hle places))).symm

end Bureau.Decimal
