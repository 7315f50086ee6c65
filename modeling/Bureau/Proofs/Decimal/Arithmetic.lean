import Bureau.Decimal.Arithmetic
import Mathlib.Tactic.SplitIfs

/-!
Where arithmetic on decimals has a result. A quotient can be rounded to a decimal as soon as its whole
part fits, so a product has a result if one factor lies between zero and one, and a margin below one
hundred percent can be taken off every price.
-/

set_option autoImplicit false

namespace Bureau.Decimal

/-! ### Rounding -/

theorem halfEven_le_of_le {n d bound : Nat} (hd : 0 < d) (hle : n ≤ bound * d) :
    halfEven n d ≤ bound := by
  have hdiv := Nat.div_add_mod n d
  have hquot : n / d ≤ bound := Nat.div_le_of_le_mul (by rwa [Nat.mul_comm d])
  unfold halfEven
  split_ifs with hup
  · -- a quotient that is rounded up has a remainder, so it is below the bound
    have hrem : 0 < n % d := by omega
    have hlt : n / d < bound := by
      rw [Nat.div_lt_iff_lt_mul hd]
      rcases Nat.lt_or_eq_of_le hle with hlt | heq
      · exact hlt
      · rw [heq, Nat.mul_mod_left] at hrem
        omega
    exact hlt
  · exact hquot

private theorem natAbs_halfEvenInt (n : Int) (d : Nat) :
    (halfEvenInt n d).natAbs = halfEven n.natAbs d := by
  unfold halfEvenInt
  split_ifs <;> simp

theorem ofParts?_of_fits {coefficient : Int} {scale : Nat} (hsize : coefficient.natAbs < twoTo 96)
    (hscale : scale ≤ 28) :
    ofParts? coefficient scale =
      some ⟨decide (coefficient < 0), coefficient.natAbs, scale, hsize, hscale⟩ :=
  dif_pos ⟨hsize, hscale⟩

theorem exists_nearest? {num : Int} {den : Nat} (hfits : halfEven num.natAbs den < twoTo 96)
    (places : Nat) : ∃ a, nearest? num den places = some a := by
  induction places with
  | zero =>
      rw [nearest?, ofParts?_of_fits (by rwa [natAbs_halfEvenInt]) (Nat.zero_le 28)]
      exact ⟨_, rfl⟩
  | succ places ih =>
      unfold nearest?
      cases ofParts? (halfEvenInt (num * tenTo (places + 1)) den) (places + 1) with
      | some a => exact ⟨a, rfl⟩
      | none => exact ih

theorem nearest?_eq_some {num : Int} {den places : Nat} {a : Decimal}
    (h : nearest? num den places = some a) :
    ∃ scale ≤ places, ofParts? (halfEvenInt (num * tenTo scale) den) scale = some a := by
  induction places with
  | zero =>
      rw [nearest?] at h
      refine ⟨0, Nat.le_refl 0, ?_⟩
      rwa [show ((tenTo 0 : Nat) : Int) = 1 from rfl, Int.mul_one]
  | succ places ih =>
      unfold nearest? at h
      cases hparts : ofParts? (halfEvenInt (num * tenTo (places + 1)) den) (places + 1) with
      | some b =>
          rw [hparts] at h
          exact ⟨places + 1, Nat.le_refl _, hparts.trans h⟩
      | none =>
          rw [hparts] at h
          obtain ⟨scale, hle, hscale⟩ := ih h
          exact ⟨scale, Nat.le_succ_of_le hle, hscale⟩

theorem of_ofParts?_eq_some {coefficient : Int} {scale : Nat} {a : Decimal}
    (h : ofParts? coefficient scale = some a) :
    a.size = coefficient.natAbs ∧ a.scale = scale ∧ a.negative = decide (coefficient < 0) := by
  unfold ofParts? at h
  split_ifs at h
  cases h
  exact ⟨rfl, rfl, rfl⟩

/-! ### Parts of one -/

structure IsPart (a : Decimal) : Prop where
  nonneg : a.negative = true → a.size = 0
  size_le : a.size ≤ tenTo a.scale

private theorem isPart_zero : zero.IsPart := ⟨fun _ => rfl, Nat.zero_le _⟩

private theorem isPart_one : one.IsPart := ⟨fun h => absurd h Bool.false_ne_true, Nat.le_refl 1⟩

private theorem isPart_of_ofParts? {coefficient : Int} {scale : Nat} {a : Decimal}
    (h : ofParts? coefficient scale = some a) (hnonneg : 0 ≤ coefficient)
    (hle : coefficient ≤ tenTo scale) : a.IsPart := by
  obtain ⟨hsize, hscale, hsign⟩ := of_ofParts?_eq_some h
  constructor
  · intro hnegative
    rw [hsign, decide_eq_true_eq] at hnegative
    omega
  · rw [hsize, hscale]
    omega

private theorem isPart_of_nearest? {num : Int} {den places : Nat} {a : Decimal}
    (h : nearest? num den places = some a) (hden : 0 < den) (hnonneg : 0 ≤ num)
    (hle : num ≤ den) : a.IsPart := by
  obtain ⟨scale, -, hparts⟩ := nearest?_eq_some h
  have hten : (0 : Int) < tenTo scale := Int.natCast_pos.mpr (tenTo_pos scale)
  have hscaled : 0 ≤ num * tenTo scale := Int.mul_nonneg hnonneg (Int.le_of_lt hten)
  have hbound : (num * tenTo scale).natAbs ≤ tenTo scale * den := by
    rw [Int.natAbs_mul, Int.natAbs_natCast, Nat.mul_comm (tenTo scale)]
    exact Nat.mul_le_mul_right _ (by omega)
  have hround := halfEven_le_of_le hden hbound
  have hint : halfEvenInt (num * tenTo scale) den = halfEven (num * tenTo scale).natAbs den :=
    if_neg (Int.not_lt.mpr hscaled)
  refine isPart_of_ofParts? hparts ?_ ?_ <;> rw [hint]
  · exact Int.natCast_nonneg _
  · exact Int.ofNat_le.mpr hround

theorem IsPart.dropZeros {a : Decimal} (h : a.IsPart) (zeros : Nat) : (a.dropZeros zeros).IsPart := by
  have hstrip : ∀ n s k, n ≤ tenTo s → (stripZeros n s k).1 ≤ tenTo (stripZeros n s k).2 := by
    intro n s k hle
    induction k generalizing n s with
    | zero => exact hle
    | succ k ih =>
        unfold stripZeros
        split_ifs with hzero
        · refine ih (n / 10) (s - 1) ?_
          obtain ⟨s, rfl⟩ : ∃ t, s = t + 1 := ⟨s - 1, by omega⟩
          have hten : tenTo (s + 1) = tenTo s * 10 := Nat.pow_succ 10 s
          rw [hten] at hle
          rw [Nat.add_sub_cancel]
          omega
        · exact hle
  constructor
  · intro hnegative
    have hnone := h.nonneg hnegative
    have hle := (stripZeros_bound a.size a.scale zeros).1
    change (stripZeros a.size a.scale zeros).1 = 0
    omega
  · exact hstrip _ _ _ h.size_le

theorem IsPart.shorten {a : Decimal} (h : a.IsPart) : a.shorten.IsPart := by
  have hgroups : ∀ k (b : Decimal), b.IsPart → (b.dropGroups k).IsPart := by
    intro k
    induction k with
    | zero => exact fun b hb => hb
    | succ k ih =>
        intro b hb
        unfold dropGroups
        split_ifs
        · exact ih _ (hb.dropZeros 8)
        · exact hb
  exact (hgroups 3 a h).dropZeros 7

/-! ### Products, differences and quotients -/

theorem natAbs_coefficient (a : Decimal) : a.coefficient.natAbs = a.size := by
  unfold coefficient
  split_ifs <;> simp

theorem exists_mul?_of_isPart (a : Decimal) {b : Decimal} (hb : b.IsPart) :
    ∃ c, a.mul? b = some c := by
  have hfits : halfEven (a.coefficient * b.coefficient).natAbs (tenTo (a.scale + b.scale)) <
      twoTo 96 := by
    refine Nat.lt_of_le_of_lt (halfEven_le_of_le (tenTo_pos _) ?_) a.size_lt
    have hle : tenTo b.scale ≤ tenTo (a.scale + b.scale) :=
      Nat.pow_le_pow_right (by decide) (Nat.le_add_left _ _)
    rw [Int.natAbs_mul, natAbs_coefficient, natAbs_coefficient]
    exact Nat.mul_le_mul_left _ (Nat.le_trans hb.size_le hle)
  obtain ⟨c, hc⟩ := exists_nearest? hfits (Nat.min maxScale (a.scale + b.scale))
  unfold mul?
  simp only [hc]
  split_ifs <;> exact ⟨_, rfl⟩

theorem exists_one_sub? {a : Decimal} (ha : a.IsPart) : ∃ b, one.sub? a = some b ∧ b.IsPart := by
  have hone : one.isZero = false := rfl
  unfold sub?
  by_cases hzero : a.isZero = true
  · rw [if_pos hzero, add?, hone, if_neg Bool.false_ne_true, if_pos hzero]
    exact ⟨one, rfl, isPart_one⟩
  · have hneg : a.neg.isZero = a.isZero := rfl
    have hsize : a.size ≠ 0 := fun h => hzero (beq_iff_eq.mpr h)
    have hplus : a.negative = false := by
      cases hsign : a.negative with
      | false => rfl
      | true => exact absurd (ha.nonneg hsign) hsize
    have hcoefficient : a.neg.coefficient = -(a.size : Int) := by
      simp [neg, withSign, coefficient, hplus]
    have hscale : Nat.max one.scale a.neg.scale = a.scale := Nat.max_eq_right (Nat.zero_le _)
    have hle := ha.size_le
    have hten := tenTo_pos a.scale
    rw [if_neg hzero, add?, hone, hneg, if_neg Bool.false_ne_true, if_neg hzero]
    simp only [hscale, hcoefficient]
    have hnum : one.coefficient * ((tenTo (a.scale - one.scale) : Nat) : Int) +
        -(a.size : Int) * ((tenTo (a.scale - a.neg.scale) : Nat) : Int) =
          (tenTo a.scale : Int) - a.size := by
      change 1 * ((tenTo (a.scale - 0) : Nat) : Int) +
        -(a.size : Int) * ((tenTo (a.scale - a.scale) : Nat) : Int) = _
      rw [Nat.sub_zero, Nat.sub_self, show tenTo 0 = 1 from rfl]
      omega
    rw [hnum]
    have hround : halfEven ((tenTo a.scale : Int) - a.size).natAbs (tenTo a.scale) ≤ 1 :=
      halfEven_le_of_le hten (by omega)
    have hfits : halfEven ((tenTo a.scale : Int) - a.size).natAbs (tenTo a.scale) < twoTo 96 :=
      Nat.lt_of_le_of_lt hround (by decide)
    obtain ⟨b, hb⟩ := exists_nearest? hfits a.scale
    exact ⟨b, hb, isPart_of_nearest? hb hten (by omega) (by omega)⟩

private theorem isPart_of_writtenOut?_hundred {a b : Decimal} (hnonneg : 0 ≤ a.coefficient)
    (hlt : a.coefficient < 100 * tenTo a.scale) (h : a.writtenOut? hundred = some b) :
    b.IsPart := by
  obtain ⟨k, -, hparts⟩ := List.exists_of_findSome?_eq_some h
  have hten : (0 : Int) < tenTo (9 * (k + 1)) := Int.natCast_pos.mpr (tenTo_pos _)
  have hplaces : tenTo (a.scale + 9 * (k + 1)) = tenTo a.scale * tenTo (9 * (k + 1)) :=
    Nat.pow_add 10 _ _
  have hscaled : 0 ≤ a.coefficient * tenTo (9 * (k + 1)) :=
    Int.mul_nonneg hnonneg (Int.le_of_lt hten)
  have hbound : a.coefficient * tenTo (9 * (k + 1)) < 100 * tenTo (a.scale + 9 * (k + 1)) := by
    have hmul := Int.mul_lt_mul_of_pos_right hlt hten
    rwa [Int.mul_assoc, ← Int.natCast_mul, ← hplaces] at hmul
  change (if a.coefficient * tenTo (9 * (k + 1)) % 100 = 0 then
      ofParts? (a.coefficient * tenTo (9 * (k + 1)) / 100 *
        ((tenTo (0 - (a.scale + 9 * (k + 1))) : Nat) : Int)) (a.scale + 9 * (k + 1) - 0)
    else none) = some b at hparts
  split_ifs at hparts
  rw [Nat.zero_sub, Nat.sub_zero, show tenTo 0 = 1 from rfl, Int.natCast_one, Int.mul_one] at hparts
  exact isPart_of_ofParts? hparts (by omega) (by omega)

theorem exists_div?_hundred {a : Decimal} (hnonneg : zero ≤ a) (hlt : a < hundred) :
    ∃ b, a.div? hundred = some b ∧ b.IsPart := by
  have hcoefficient : 0 ≤ a.coefficient := by
    change 0 * (tenTo a.scale : Int) ≤ a.coefficient * ((tenTo 0 : Nat) : Int) at hnonneg
    rw [show tenTo 0 = 1 from rfl] at hnonneg
    omega
  have hbelow : a.coefficient < 100 * tenTo a.scale := by
    change a.coefficient * ((tenTo 0 : Nat) : Int) < 100 * (tenTo a.scale : Int) at hlt
    rw [show tenTo 0 = 1 from rfl] at hlt
    omega
  have hsize := natAbs_coefficient a
  have hfit := a.size_lt
  unfold div?
  rw [show hundred.isZero = false from rfl, if_neg Bool.false_ne_true,
    show hundred.coefficient = 100 from rfl]
  by_cases hzero : a.isZero = true
  · rw [if_pos hzero]
    exact ⟨zero, rfl, isPart_zero⟩
  · rw [if_neg hzero]
    by_cases heven : a.coefficient % 100 = 0
    · have hparts : ofParts? (a.coefficient / 100 * ((tenTo (hundred.scale - a.scale) : Nat) : Int))
          (a.scale - hundred.scale) = ofParts? (a.coefficient / 100) a.scale := by
        change ofParts? (a.coefficient / 100 * ((tenTo (0 - a.scale) : Nat) : Int)) (a.scale - 0) = _
        rw [Nat.zero_sub, Nat.sub_zero, show tenTo 0 = 1 from rfl, Int.natCast_one, Int.mul_one]
      have hquot : (a.coefficient / 100).natAbs < twoTo 96 := by omega
      have hfits := ofParts?_of_fits hquot a.scale_le
      rw [if_pos heven, hparts, hfits]
      exact ⟨_, rfl, isPart_of_ofParts? hfits (by omega) (by omega)⟩
    · have hplus : a.negative = hundred.negative := by
        change a.negative = false
        cases hsign : a.negative with
        | false => rfl
        | true =>
            have hneg : a.coefficient = -(a.size : Int) := by rw [coefficient, hsign, if_pos rfl]
            have hsize0 : a.size = 0 := by omega
            exact absurd (beq_iff_eq.mpr hsize0) hzero
      have hden : 0 < hundred.size * tenTo a.scale := Nat.mul_pos (by decide) (tenTo_pos _)
      have hround : halfEven ((a.size : Int) * tenTo hundred.scale).natAbs
          (hundred.size * tenTo a.scale) ≤ 1 := by
        refine halfEven_le_of_le hden ?_
        change ((a.size : Int) * ((1 : Nat) : Int)).natAbs ≤ 1 * (100 * tenTo a.scale)
        omega
      obtain ⟨c, hc⟩ := exists_nearest? (Nat.lt_of_le_of_lt hround (by decide)) maxScale
      rw [if_neg heven]
      simp only [if_pos hplus, hc]
      cases hout : a.writtenOut? hundred with
      | some b =>
          exact ⟨_, rfl, (isPart_of_writtenOut?_hundred hcoefficient hbelow hout).shorten⟩
      | none =>
          refine ⟨_, rfl, (isPart_of_nearest? hc hden ?_ ?_).shorten⟩
          · change 0 ≤ (a.size : Int) * ((1 : Nat) : Int)
            omega
          · change (a.size : Int) * ((1 : Nat) : Int) ≤ ((100 * tenTo a.scale : Nat) : Int)
            omega

end Bureau.Decimal
