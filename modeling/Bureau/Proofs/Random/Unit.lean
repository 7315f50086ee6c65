import Bureau.Proofs.Decimal.Rounding
import Bureau.Random.Unit
import Mathlib.Tactic.Ring

/-!
Random parts of steps lie between minus one and one: rounding does not lead past a power of two, nor
does writing a number with fewer digits.
-/

set_option autoImplicit false

namespace Bureau

open Decimal

/-! ### Rounding to binary places -/

private theorem Decimal.halfEven_mul_self {d : Nat} (k : Nat) (hd : 0 < d) :
    halfEven (k * d) d = k := by
  rw [halfEven, Nat.mul_mod_left, Nat.mul_div_cancel k hd, if_neg]
  omega

namespace Binary64

variable {negative : Bool} {num den : Nat} {x : Binary64}

private theorem magnitude_le {j : Int} (hle : (num.log2 : Int) - den.log2 ≤ j) :
    magnitude num den ≤ j := by
  unfold magnitude
  dsimp only
  split_ifs <;> omega

theorem nearest?_eq_some {j : Int} (hlow : -1000 ≤ j) (hhigh : j ≤ 51)
    (hle : (num.log2 : Int) - den.log2 ≤ j) (h : nearest? negative num den = some x) :
    x.negative = negative ∧ ∃ s : Nat, 52 - j ≤ s ∧
      x.numerator * twoTo s = halfEven (num * twoTo s) den * x.denominator := by
  unfold nearest? at h
  split_ifs at h with hzero
  · cases h
    refine ⟨rfl, (52 - j).toNat, by omega, ?_⟩
    rw [hzero, Nat.zero_mul, numerator, Nat.zero_mul, Nat.zero_mul]
    simp [halfEven]
  · have hmagnitude := magnitude_le hle
    obtain ⟨s, hs⟩ : ∃ s : Nat, Max.max (magnitude num den - 52) (-1074) = -(s : Int) :=
      ⟨(-Max.max (magnitude num den - 52) (-1074)).toNat, by omega⟩
    have hplaces : 52 - j ≤ s := by omega
    have hup : (-(-(s : Int))).toNat = s := by omega
    have hdown : (-(s : Int)).toNat = 0 := by omega
    have hone : twoTo 0 = 1 := rfl
    simp only [hs, hup, hdown, hone, Nat.mul_one] at h
    by_cases hcarry : halfEven (num * twoTo s) den = twoTo 53
    · -- a rounding up to the next power of two takes one place less
      have hless : (-(-(s : Int) + 1)).toNat = s - 1 := by omega
      have hnone : (-(s : Int) + 1).toNat = 0 := by omega
      have hdouble : twoTo s = 2 * twoTo (s - 1) := by
        rw [twoTo, twoTo, Nat.pow_eq, Nat.pow_eq, ← pow_succ', Nat.sub_add_cancel (by omega)]
      rw [if_pos hcarry] at h
      dsimp only at h
      split_ifs at h
      cases h
      refine ⟨rfl, s, hplaces, ?_⟩
      rw [numerator, denominator, hnone, hless, hcarry, hdouble, hone, Nat.mul_one,
        show twoTo 53 = 2 * twoTo 52 from rfl]
      ring
    · rw [if_neg hcarry] at h
      dsimp only at h
      split_ifs at h
      cases h
      refine ⟨rfl, s, hplaces, ?_⟩
      rw [numerator, denominator, hup, hdown, hone, Nat.mul_one]

private theorem denominator_pos (x : Binary64) : 0 < x.denominator := twoTo_pos _

private theorem numerator_le_of_nearest? {j : Nat} (hj : j ≤ 51) (hden : 0 < den)
    (hle : num ≤ twoTo j * den) (h : nearest? negative num den = some x) :
    x.negative = negative ∧ x.numerator ≤ twoTo j * x.denominator := by
  have hlog : (num.log2 : Int) - den.log2 ≤ j := by
    have hlt : num < twoTo (j + den.log2 + 1) := by
      calc num ≤ twoTo j * den := hle
        _ < twoTo j * twoTo (den.log2 + 1) :=
          Nat.mul_lt_mul_of_pos_left Nat.lt_log2_self (twoTo_pos j)
        _ = twoTo (j + den.log2 + 1) := (pow_add 2 j (den.log2 + 1)).symm
    rcases Nat.eq_zero_or_pos num with rfl | hnum
    · rw [Nat.log2_zero]
      omega
    · have hlog := (Nat.log2_lt hnum.ne').mpr hlt
      omega
  obtain ⟨hsign, s, -, hvalue⟩ := nearest?_eq_some (by omega) (by omega) hlog h
  have hround : halfEven (num * twoTo s) den ≤ twoTo j * twoTo s := by
    refine halfEven_le_of_le hden ?_
    calc num * twoTo s ≤ twoTo j * den * twoTo s := Nat.mul_le_mul_right _ hle
      _ = twoTo j * twoTo s * den := by ring
  refine ⟨hsign, Nat.le_of_mul_le_mul_right ?_ (twoTo_pos s)⟩
  calc x.numerator * twoTo s ≤ twoTo j * twoTo s * x.denominator := by
        rw [hvalue]
        exact Nat.mul_le_mul_right _ hround
    _ = twoTo j * x.denominator * twoTo s := by ring

private theorem numerator_of_nearest?_fraction {n k : Nat} (hpos : 0 < n) (hn : n ≤ 53)
    (hk : k < twoTo n) (h : nearest? negative k (twoTo n) = some x) :
    x.negative = negative ∧ x.numerator * twoTo n = k * x.denominator := by
  have hlog : (k.log2 : Int) - (twoTo n).log2 ≤ -1 := by
    have htop : (twoTo n).log2 = n := Nat.log2_two_pow
    rcases Nat.eq_zero_or_pos k with rfl | hk'
    · rw [htop, Nat.log2_zero]
      omega
    · have hlog := (Nat.log2_lt hk'.ne').mpr hk
      omega
  obtain ⟨hsign, s, hs, hvalue⟩ := nearest?_eq_some (by omega) (by omega) hlog h
  obtain ⟨t, rfl⟩ : ∃ t, s = t + n := ⟨s - n, by omega⟩
  have hsplit : twoTo (t + n) = twoTo t * twoTo n := pow_add 2 t n
  rw [hsplit, ← Nat.mul_assoc, ← Nat.mul_assoc, halfEven_mul_self _ (twoTo_pos n)] at hvalue
  refine ⟨hsign, Nat.eq_of_mul_eq_mul_right (twoTo_pos t) ?_⟩
  calc x.numerator * twoTo n * twoTo t = x.numerator * twoTo t * twoTo n := by ring
    _ = k * x.denominator * twoTo t := by
      rw [hvalue]
      ring

/-! ### Writing with fewer digits -/

private theorem dropTwos_le (steps : Nat) : ∀ c places : Nat, steps ≤ places →
    c ≤ twoTo steps * tenTo (places - steps) →
    (dropTwos steps c places).1 ≤ tenTo (dropTwos steps c places).2 := by
  induction steps with
  | zero =>
      intro c places _ h
      simpa [dropTwos, twoTo] using h
  | succ steps ih =>
      intro c places hsteps h
      have hdouble : twoTo (steps + 1) = 2 * twoTo steps := pow_succ' 2 steps
      rw [hdouble] at h
      unfold dropTwos
      split_ifs
      · refine ih _ _ (by omega) ?_
        have htens : tenTo (places - steps) = 10 * tenTo (places - (steps + 1)) := by
          rw [show places - steps = places - (steps + 1) + 1 by omega]
          exact pow_succ' 10 _
        rw [htens]
        nlinarith
      · refine ih _ _ (by omega) ?_
        rw [show places - 1 - steps = places - (steps + 1) by omega]
        have hhalf : c ≤ 2 * (twoTo steps * tenTo (places - (steps + 1))) := by
          rw [← Nat.mul_assoc]
          exact h
        omega

private theorem dropPlaces_le (places : Nat) : ∀ c : Nat, c ≤ tenTo places →
    (dropPlaces places c).1 ≤ tenTo (dropPlaces places c).2 := by
  induction places with
  | zero => exact fun c h => h
  | succ places ih =>
      intro c h
      have htens : tenTo (places + 1) = 10 * tenTo places := pow_succ' 10 places
      unfold dropPlaces
      dsimp only
      split_ifs
      · exact Nat.zero_le _
      · exact ih _ (by omega)
      · exact ih _ (by omega)
      · exact h

private theorem abs_fraction?_le {d : Decimal} (hle : x.numerator ≤ x.denominator)
    (h : x.fraction? = some d) : |d.value| ≤ 1 := by
  set places := (-x.exponent).toNat
  set exact := dropTwos places x.numerator places
  set short := dropPlaces exact.2 exact.1
  have hexact : exact.1 ≤ tenTo exact.2 := by
    refine dropTwos_le places _ _ (le_refl places) ?_
    rw [Nat.sub_self, show tenTo 0 = 1 from rfl, Nat.mul_one]
    exact hle
  have hshort : short.1 ≤ tenTo short.2 := dropPlaces_le exact.2 exact.1 hexact
  obtain ⟨e, he, rfl⟩ := Option.map_eq_some_iff.mp h
  have hten : (0 : ℚ) < 10 ^ short.2 := by positivity
  rw [value_normalize, value_of_ofParts? he, abs_div, abs_of_pos hten, div_le_one hten, ← Int.cast_abs]
  have hsize : |if x.negative then -(short.1 : Int) else short.1| = short.1 := by
    split_ifs
    · rw [abs_neg, Nat.abs_cast]
    · exact Nat.abs_cast _
  rw [hsize, Int.cast_natCast, ← cast_tenTo]
  exact_mod_cast hshort

end Binary64

namespace Random

theorem streamWord_eq (key : Vector UInt32 8) (position : Nat) :
    streamWord key position =
      let first := Block.start key (UInt64.ofNat (position / 16))
      let last := first.doubleRound.doubleRound.doubleRound.doubleRound.doubleRound.doubleRound
      first.words[position % 16] + last.words[position % 16] := by
  change (Vector.zipWith _ _ _)[position % 16] = _
  rw [Vector.getElem_zipWith]

private theorem double_le {fraction denominator k : Nat} (hk : k < twoTo 52)
    (h : fraction * twoTo 52 = k * denominator) :
    fraction * spread.numerator ≤ twoTo 1 * (denominator * spread.denominator) := by
  have hnumerator : spread.numerator = twoTo 52 + 1 := rfl
  have hdenominator : twoTo 1 * (denominator * spread.denominator) = denominator * twoTo 52 := by
    rw [Nat.mul_left_comm]
    rfl
  rw [hnumerator, hdenominator]
  refine Nat.le_of_mul_le_mul_right ?_ (twoTo_pos 52)
  generalize twoTo 52 = top at hk h
  calc fraction * (top + 1) * top = k * (top + 1) * denominator := by
        rw [Nat.mul_right_comm, h]
        ring
    _ ≤ top * top * denominator := Nat.mul_le_mul_right _ (by nlinarith)
    _ = denominator * top * top := by ring

private theorem numerator_le_of_unitOf {bits : Nat} {x : Binary64} (h : unitOf bits = some x) :
    x.numerator ≤ x.denominator := by
  obtain ⟨fraction, hfraction, h⟩ := Option.bind_eq_some_iff.mp h
  obtain ⟨doubled, hdoubled, h⟩ := Option.bind_eq_some_iff.mp h
  have hbits : bits / twoTo 12 % twoTo 52 < twoTo 52 := Nat.mod_lt _ (twoTo_pos 52)
  obtain ⟨hsign, hexact⟩ :=
    Binary64.numerator_of_nearest?_fraction (by decide) (by decide) hbits hfraction
  -- the greatest fraction falls short of one by more than the factor exceeds two
  have hdouble : fraction.numerator * spread.numerator ≤
      twoTo 1 * (fraction.denominator * spread.denominator) :=
    double_le hbits hexact
  have hpos : 0 < fraction.denominator * spread.denominator :=
    Nat.mul_pos fraction.denominator_pos spread.denominator_pos
  obtain ⟨hsign', htwo⟩ := Binary64.numerator_le_of_nearest? (by decide) hpos hdouble hdoubled
  rw [hsign] at hsign'
  have hless : ((doubled.numerator : Int) - doubled.denominator).natAbs ≤
      twoTo 0 * doubled.denominator := by
    rw [show twoTo 1 = 2 from rfl] at htwo
    rw [show twoTo 0 = 1 from rfl]
    omega
  rw [Binary64.predecessor?, hsign'] at h
  obtain ⟨-, hle⟩ :=
    Binary64.numerator_le_of_nearest? (by decide) doubled.denominator_pos hless h
  rwa [show twoTo 0 = 1 from rfl, Nat.one_mul] at hle

theorem abs_unit_le (seed : UInt64) (position : Nat) : |(unit seed position).value| ≤ 1 := by
  unfold unit
  cases hunit : (unitOf (draw seed position)).bind Binary64.fraction? with
  | none => simp
  | some d =>
      obtain ⟨x, hx, hd⟩ := Option.bind_eq_some_iff.mp hunit
      exact Binary64.abs_fraction?_le (numerator_le_of_unitOf hx) hd

end Random

end Bureau
