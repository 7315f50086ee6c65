import Bureau.Proofs.Decimal.Value
import Mathlib.Algebra.Group.Int.Even

/-!
What rounding does to values. Every operation gives the exact result rounded half to even, at 28 places
or, if that does not fit, at the most places that do; a result that can be written down is exact.
-/

set_option autoImplicit false

namespace Bureau.Decimal

/-! ### Nearest integers -/

/-- An integer nearest to a number, the even one of two. -/
structure IsHalfEven (q : ℚ) (n : Int) : Prop where
  sub_le : q - 1 / 2 ≤ n
  le_add : n ≤ q + 1 / 2
  even_of_low : (n : ℚ) = q - 1 / 2 → Even n
  even_of_high : (n : ℚ) = q + 1 / 2 → Even n

namespace IsHalfEven

variable {q r : ℚ} {n m k : Int}

protected theorem neg (h : IsHalfEven q n) : IsHalfEven (-q) (-n) where
  sub_le := by
    have hle := h.le_add
    push_cast
    linarith
  le_add := by
    have hle := h.sub_le
    push_cast
    linarith
  even_of_low htie := by
    push_cast at htie
    exact (h.even_of_high (by linarith)).neg
  even_of_high htie := by
    push_cast at htie
    exact (h.even_of_low (by linarith)).neg

theorem of_eq (h : q = n) : IsHalfEven q n where
  sub_le := by linarith
  le_add := by linarith
  even_of_low htie := by linarith
  even_of_high htie := by linarith

private theorem zero_of_small (h : |q| < 1 / 2) : IsHalfEven q 0 where
  sub_le := by
    have hlt := (abs_lt.mp h).2
    push_cast
    linarith
  le_add := by
    have hlt := (abs_lt.mp h).1
    push_cast
    linarith
  even_of_low _ := ⟨0, rfl⟩
  even_of_high _ := ⟨0, rfl⟩

theorem mono (hn : IsHalfEven q n) (hm : IsHalfEven r m) (hle : q ≤ r) : n ≤ m := by
  by_contra hlt
  have hstep : m + 1 ≤ n := by omega
  have hstep' : (m : ℚ) + 1 ≤ n := by exact_mod_cast hstep
  have hlow := hm.sub_le
  have hhigh := hn.le_add
  -- both are ties between the same two integers
  have hntie : (n : ℚ) = q + 1 / 2 := by linarith
  have hmtie : (m : ℚ) = r - 1 / 2 := by linarith
  have hn2 := hn.even_of_high hntie
  have hm2 := hm.even_of_low hmtie
  have hnext : n = m + 1 := by
    have hcast : (n : ℚ) = m + 1 := by linarith
    exact_mod_cast hcast
  rw [hnext, Int.even_add_one] at hn2
  exact hn2 hm2

theorem unique (hn : IsHalfEven q n) (hm : IsHalfEven q m) : n = m :=
  le_antisymm (hn.mono hm le_rfl) (hm.mono hn le_rfl)

theorem le_of_le (h : IsHalfEven q n) (hle : q ≤ k) : n ≤ k := h.mono (of_eq rfl) hle

theorem lt_iff (h : IsHalfEven q n) : n < k ↔ q < k - 1 / 2 ∨ (q = k - 1 / 2 ∧ Odd k) := by
  have hlow := h.sub_le
  constructor
  · intro hlt
    have hstep : n + 1 ≤ k := hlt
    have hstep' : (n : ℚ) + 1 ≤ k := by exact_mod_cast hstep
    rcases lt_or_eq_of_le (show q ≤ k - 1 / 2 by linarith) with hless | htie
    · exact .inl hless
    · refine .inr ⟨htie, ?_⟩
      have hcast : (n : ℚ) = ((k - 1 : Int) : ℚ) := by
        push_cast
        linarith
      have hprev : n = k - 1 := by exact_mod_cast hcast
      have heven := h.even_of_low (by linarith)
      rw [hprev] at heven
      have hodd := heven.add_one
      rwa [sub_add_cancel] at hodd
  · intro hless
    by_contra hge
    have hge' : (k : ℚ) ≤ n := by exact_mod_cast not_lt.mp hge
    have hhigh := h.le_add
    rcases hless with hless | ⟨htie, hodd⟩
    · linarith
    · have hcast : (n : ℚ) = k := by linarith
      have hsame : n = k := by exact_mod_cast hcast
      have heven := h.even_of_high (by linarith)
      rw [hsame] at heven
      exact Int.not_even_iff_odd.mpr hodd heven

private theorem abs_le_add (h : IsHalfEven q n) : |(n : ℚ)| ≤ |q| + 1 / 2 := by
  have hlow := h.sub_le
  have hhigh := h.le_add
  have habove := le_abs_self q
  have hbelow := neg_abs_le q
  rw [abs_le]
  constructor <;> linarith

private theorem le_abs (h : IsHalfEven q n) (heven : Even k) (hle : (k : ℚ) - 1 / 2 ≤ |q|) :
    k ≤ |n| := by
  have hpos : ∀ {r : ℚ} {m : Int}, IsHalfEven r m → (k : ℚ) - 1 / 2 ≤ r → k ≤ m := by
    intro r m hm hr
    by_contra hlt
    rcases hm.lt_iff.mp (not_le.mp hlt) with hless | ⟨-, hodd⟩
    · linarith
    · exact Int.not_even_iff_odd.mpr hodd heven
  rcases le_total 0 q with hq | hq
  · rw [abs_of_nonneg hq] at hle
    exact le_trans (hpos h hle) (le_abs_self n)
  · rw [abs_of_nonpos hq] at hle
    exact le_trans (hpos h.neg hle) (neg_le_abs n)

private theorem abs_lt_of_fits (h : IsHalfEven q n) (hsize : |n| < 2 ^ 96) : |q| < 2 ^ 96 - 1 / 2 := by
  by_contra hge
  have hgreat : (2 : Int) ^ 96 ≤ |n| := by
    refine h.le_abs (by decide) ?_
    push_cast
    exact not_lt.mp hge
  exact absurd hsize (not_lt.mpr hgreat)

end IsHalfEven

private theorem exists_part (n : Nat) {d : Nat} (hd : 0 < d) :
    ∃ part : ℚ, (n : ℚ) / d = (n / d : Nat) + part ∧ 0 ≤ part ∧ part < 1 ∧
      2 * part * d = ((2 * (n % d) : Nat) : ℚ) := by
  have hpos : (0 : ℚ) < d := by exact_mod_cast hd
  obtain ⟨part, hpart⟩ : ∃ part : ℚ, part * d = (n % d : Nat) := ⟨_, div_mul_cancel₀ _ hpos.ne'⟩
  refine ⟨part, ?_, ?_, ?_, ?_⟩
  · have hdiv : (n : ℚ) = d * (n / d : Nat) + (n % d : Nat) := by
      exact_mod_cast (Nat.div_add_mod n d).symm
    rw [div_eq_iff hpos.ne', add_mul, hpart, mul_comm]
    exact hdiv
  · have hle : (0 : ℚ) ≤ (n % d : Nat) := by positivity
    rw [← hpart] at hle
    exact nonneg_of_mul_nonneg_left hle hpos
  · have hlt : ((n % d : Nat) : ℚ) < d := by exact_mod_cast Nat.mod_lt n hd
    rw [← hpart] at hlt
    exact (mul_lt_iff_lt_one_left hpos).mp hlt
  · rw [mul_assoc, hpart]
    push_cast
    rfl

namespace IsHalfEven

variable {k : Int} {part : ℚ}

private theorem of_part_le (hnonneg : 0 ≤ part) (hle : part ≤ 1 / 2) (htie : part = 1 / 2 → Even k) :
    IsHalfEven (k + part) k where
  sub_le := by linarith
  le_add := by linarith
  even_of_low hlow := htie (by linarith)
  even_of_high hhigh := by linarith

private theorem of_le_part (hge : 1 / 2 ≤ part) (hlt : part < 1) (htie : part = 1 / 2 → Odd k) :
    IsHalfEven (k + part) (k + 1) where
  sub_le := by
    push_cast
    linarith
  le_add := by
    push_cast
    linarith
  even_of_low hlow := by
    push_cast at hlow
    linarith
  even_of_high hhigh := by
    push_cast at hhigh
    exact (htie (by linarith)).add_one

end IsHalfEven

theorem isHalfEven_halfEven (n : Nat) {d : Nat} (hd : 0 < d) :
    IsHalfEven (n / d) (halfEven n d : Nat) := by
  have hpos : (0 : ℚ) < d := by exact_mod_cast hd
  obtain ⟨part, hquotient, hnonneg, hlt, htwice⟩ := exists_part n hd
  have htie : part = 1 / 2 → 2 * (n % d) = d := by
    intro h
    rw [h] at htwice
    have hcast : (d : ℚ) = ((2 * (n % d) : Nat) : ℚ) := by linarith
    exact_mod_cast hcast.symm
  rw [hquotient]
  unfold halfEven
  generalize n / d = quotient
  split_ifs with hup
  · have hge : 1 / 2 ≤ part := by
      have hle : d ≤ 2 * (n % d) := by omega
      have hcast : (d : ℚ) ≤ ((2 * (n % d) : Nat) : ℚ) := by exact_mod_cast hle
      rw [← htwice] at hcast
      have htwo := (le_mul_iff_one_le_left hpos).mp hcast
      linarith
    have hround := IsHalfEven.of_le_part (k := quotient) hge hlt fun h => by
      have hrem := htie h
      rw [Int.odd_iff]
      omega
    exact_mod_cast hround
  · have hle : part ≤ 1 / 2 := by
      have hle : 2 * (n % d) ≤ d := by omega
      have hcast : ((2 * (n % d) : Nat) : ℚ) ≤ d := by exact_mod_cast hle
      rw [← htwice] at hcast
      have htwo := (mul_le_iff_le_one_left hpos).mp hcast
      linarith
    have hround := IsHalfEven.of_part_le (k := quotient) hnonneg hle fun h => by
      have hrem := htie h
      rw [Int.even_iff]
      omega
    exact_mod_cast hround

theorem isHalfEven_halfEvenInt (n : Int) {d : Nat} (hd : 0 < d) :
    IsHalfEven (n / d) (halfEvenInt n d) := by
  have hround := isHalfEven_halfEven n.natAbs hd
  rw [Nat.cast_natAbs] at hround
  unfold halfEvenInt
  split_ifs with hneg
  · have hsize := hround.neg
    rwa [abs_of_neg hneg, Int.cast_neg, neg_div, neg_neg] at hsize
  · rwa [abs_of_nonneg (not_lt.mp hneg)] at hround

/-! ### Rounded results -/

/-- A decimal is a number rounded half to even, at 28 places or else at the most that fit. -/
def Rounds (q : ℚ) (a : Decimal) : Prop :=
  ∃ (places : Nat) (n : Int), places ≤ 28 ∧ |n| < 2 ^ 96 ∧
    a.value * 10 ^ places = n ∧ IsHalfEven (q * 10 ^ places) n ∧
    (a.value = q ∨ places = 28 ∨ 2 ^ 96 - 1 / 2 ≤ |q| * 10 ^ (places + 1))

namespace Rounds

variable {q r : ℚ} {a b : Decimal}

theorem of_value (h : a.value = q) : Rounds q a := by
  refine ⟨a.scale, a.coefficient, a.scale_le, ?_, value_mul_scale a, ?_, .inl h⟩
  · rw [abs_coefficient]
    exact_mod_cast a.size_lt
  · rw [← h, value_mul_scale]
    exact .of_eq rfl

protected theorem neg (h : Rounds q a) : Rounds (-q) a.neg := by
  obtain ⟨places, n, hplaces, hsize, hunits, hround, hfinest⟩ := h
  refine ⟨places, -n, hplaces, by rwa [abs_neg], ?_, ?_, ?_⟩
  · rw [value_neg, neg_mul, hunits, Int.cast_neg]
  · rw [neg_mul]
    exact hround.neg
  · rwa [value_neg, abs_neg, neg_inj]

theorem congr (h : Rounds q a) (hvalue : b.value = a.value) : Rounds q b := by
  obtain ⟨places, n, hplaces, hsize, hunits, hround, hfinest⟩ := h
  exact ⟨places, n, hplaces, hsize, by rwa [hvalue], hround, by rwa [hvalue]⟩

theorem abs_sub_mul_le {places : Nat} {n : Int} (hunits : a.value * 10 ^ places = n)
    (hround : IsHalfEven (q * 10 ^ places) n) : |a.value - q| * 10 ^ places ≤ 1 / 2 := by
  have hten : (0 : ℚ) < 10 ^ places := by positivity
  have hlow := hround.sub_le
  have hhigh := hround.le_add
  rw [← abs_of_pos hten, ← abs_mul, sub_mul, hunits, abs_le]
  constructor <;> linarith

theorem le_of_units {places : Nat} {n m : Int} (hunitsa : a.value * 10 ^ places = n)
    (hunitsb : b.value * 10 ^ places = m) (hrounda : IsHalfEven (q * 10 ^ places) n)
    (hroundb : IsHalfEven (r * 10 ^ places) m) (hle : q ≤ r) : a.value ≤ b.value := by
  have hten : (0 : ℚ) < 10 ^ places := by positivity
  have hnm : (n : ℚ) ≤ m := by
    exact_mod_cast hrounda.mono hroundb (mul_le_mul_of_nonneg_right hle hten.le)
  rw [← hunitsa, ← hunitsb] at hnm
  exact le_of_mul_le_mul_right hnm hten

/-- A number that is too great for one place more is rounded no higher than a number above it that is
rounded at more places: it lies far below zero. -/
theorem le_of_coarse {s t : Nat} {n m : Int} (hst : s < t) (hm : |m| < 2 ^ 96)
    (hunitsa : a.value * 10 ^ s = n) (hunitsb : b.value * 10 ^ t = m)
    (hrounda : IsHalfEven (q * 10 ^ s) n) (hroundb : IsHalfEven (r * 10 ^ t) m)
    (hcoarse : 2 ^ 96 - 1 / 2 ≤ |q| * 10 ^ (s + 1)) (hle : q ≤ r) : a.value ≤ b.value := by
  have hten : (0 : ℚ) < 10 ^ (s + 1) := by positivity
  have hmore : (10 : ℚ) ^ (s + 1) ≤ 10 ^ t := pow_le_pow_right₀ (by norm_num) hst
  have hr : |r| * 10 ^ (s + 1) < 2 ^ 96 - 1 / 2 := by
    have hfits := hroundb.abs_lt_of_fits hm
    rw [abs_mul, abs_of_pos (show (0 : ℚ) < 10 ^ t by positivity)] at hfits
    exact (mul_le_mul_of_nonneg_left hmore (abs_nonneg r)).trans_lt hfits
  have hless : |r| < |q| := lt_of_mul_lt_mul_right (hr.trans_le hcoarse) hten.le
  have hneg : q < 0 := by
    by_contra hnonneg
    rw [abs_of_nonneg (not_lt.mp hnonneg)] at hless
    exact absurd (hle.trans (le_abs_self r)) (not_le.mpr hless)
  rw [pow_succ (10 : ℚ) s, ← mul_assoc, abs_of_neg hneg] at hcoarse
  have hlow : n < -7922816251426433759354395033 := by
    rw [hrounda.lt_iff]
    left
    push_cast
    linarith
  have hlow' : (n : ℚ) ≤ -7922816251426433759354395034 := by
    have hstep : n ≤ -7922816251426433759354395034 := by omega
    exact_mod_cast hstep
  have hb : |b.value| * 10 ^ (s + 1) ≤ 2 ^ 96 - 1 := by
    have hstep : |m| ≤ 2 ^ 96 - 1 := by omega
    calc |b.value| * 10 ^ (s + 1) ≤ |b.value| * 10 ^ t :=
          mul_le_mul_of_nonneg_left hmore (abs_nonneg _)
      _ = |(m : ℚ)| := by
          rw [← hunitsb, abs_mul, abs_of_pos (show (0 : ℚ) < 10 ^ t by positivity)]
      _ ≤ 2 ^ 96 - 1 := by exact_mod_cast hstep
  have hfloor := mul_le_mul_of_nonneg_right (neg_abs_le b.value) hten.le
  refine le_of_mul_le_mul_right ?_ hten
  rw [pow_succ (10 : ℚ) s, ← mul_assoc, hunitsa]
  rw [pow_succ (10 : ℚ) s] at hfloor hb
  linarith

/-- Rounding keeps the order where the greater number is rounded no more coarsely. -/
theorem le_of_finer {s t : Nat} {n m : Int} (hst : s ≤ t) (ht : t ≤ 28) (hm : |m| < 2 ^ 96)
    (hunitsa : a.value * 10 ^ s = n) (hunitsb : b.value * 10 ^ t = m)
    (hrounda : IsHalfEven (q * 10 ^ s) n) (hroundb : IsHalfEven (r * 10 ^ t) m)
    (hfinest : a.value = q ∨ s = 28 ∨ 2 ^ 96 - 1 / 2 ≤ |q| * 10 ^ (s + 1)) (hle : q ≤ r) :
    a.value ≤ b.value := by
  rcases Nat.eq_or_lt_of_le hst with rfl | hlt
  · exact le_of_units hunitsa hunitsb hrounda hroundb hle
  · rcases hfinest with hexact | rfl | hcoarse
    · -- an exact result is exact at more places too
      have hwhole : a.value * 10 ^ t = ((n * 10 ^ (t - s) : Int) : ℚ) := by
        have hsplit : (10 : ℚ) ^ t = 10 ^ s * 10 ^ (t - s) := by
          rw [← pow_add, Nat.add_sub_cancel' hst]
        rw [hsplit, ← mul_assoc, hunitsa]
        push_cast
        rfl
      exact le_of_units hwhole hunitsb (.of_eq (by rw [← hexact, hwhole])) hroundb hle
    · omega
    · exact le_of_coarse hlt hm hunitsa hunitsb hrounda hroundb hcoarse hle

theorem mono (ha : Rounds q a) (hb : Rounds r b) (hle : q ≤ r) : a ≤ b := by
  rw [le_iff]
  obtain ⟨s, n, hs, hn, hunitsa, hrounda, hfinesta⟩ := ha
  obtain ⟨t, m, ht, hm, hunitsb, hroundb, hfinestb⟩ := hb
  rcases Nat.le_total s t with hst | hts
  · exact le_of_finer hst ht hm hunitsa hunitsb hrounda hroundb hfinesta hle
  · have hnegs : b.neg.value ≤ a.neg.value := by
      refine le_of_finer (q := -r) (r := -q) (n := -m) (m := -n) hts hs ?_ ?_ ?_ ?_ ?_ ?_ ?_
      · rwa [abs_neg]
      · rw [value_neg, neg_mul, hunitsb, Int.cast_neg]
      · rw [value_neg, neg_mul, hunitsa, Int.cast_neg]
      · rw [neg_mul]
        exact hroundb.neg
      · rw [neg_mul]
        exact hrounda.neg
      · rwa [value_neg, abs_neg, neg_inj]
      · exact neg_le_neg hle
    rw [value_neg, value_neg] at hnegs
    exact neg_le_neg_iff.mp hnegs

theorem le_of_le (h : Rounds q a) (hle : q ≤ b.value) : a ≤ b := h.mono (of_value rfl) hle

theorem ge_of_ge (h : Rounds q a) (hle : b.value ≤ q) : b ≤ a := (of_value rfl).mono h hle

theorem zero_le (h : Rounds q a) (hq : 0 ≤ q) : zero ≤ a := h.ge_of_ge (by rwa [value_zero])

theorem nonneg (h : Rounds q a) (hq : 0 ≤ q) : 0 ≤ a.value := zero_le_iff.mp (h.zero_le hq)

theorem unit_bounds (h : Rounds q a) (h0 : 0 ≤ q) (h1 : q ≤ 1) : 0 ≤ a.value ∧ a.value ≤ 1 := by
  have hle : a ≤ one := h.le_of_le (by rwa [value_one])
  rw [le_iff, value_one] at hle
  exact ⟨h.nonneg h0, hle⟩

theorem value_eq (ha : Rounds q a) (hb : Rounds q b) : a.value = b.value :=
  le_antisymm (le_iff.mp (ha.mono hb le_rfl)) (le_iff.mp (hb.mono ha le_rfl))

theorem abs_lt (h : Rounds q a) : |q| < 2 ^ 96 - 1 / 2 := by
  obtain ⟨places, n, -, hsize, -, hround, -⟩ := h
  have hfits := hround.abs_lt_of_fits hsize
  rw [abs_mul, abs_of_pos (show (0 : ℚ) < 10 ^ places by positivity)] at hfits
  exact (le_mul_of_one_le_right (abs_nonneg q) (one_le_pow₀ (by norm_num))).trans_lt hfits

theorem eq_of_units {k : Int} {places : Nat} (h : Rounds q a) (hplaces : places ≤ 28)
    (hunits : q * 10 ^ places = k) (hfits : |q| * 10 ^ places ≤ 2 ^ 96 - 1) : a.value = q := by
  have hten : (0 : ℚ) < 10 ^ places := by positivity
  have hsize : k.natAbs < twoTo 96 := by
    rw [← abs_of_pos hten, ← abs_mul, hunits, ← Int.cast_abs, ← Nat.cast_natAbs] at hfits
    have hcast : ((k.natAbs : Nat) : ℚ) < ((2 ^ 96 : Nat) : ℚ) := by
      push_cast
      linarith
    exact_mod_cast hcast
  have hexact := value_of_ofParts? (ofParts?_of_fits hsize hplaces)
  rw [← hunits, mul_div_cancel_right₀ _ hten.ne'] at hexact
  exact (h.value_eq (of_value hexact)).trans hexact

end Rounds

/-! ### Operations -/

variable {a b c : Decimal}

private theorem abs_lt_of_ofParts? {n : Int} {scale : Nat} (h : ofParts? n scale = some a) :
    |n| < 2 ^ 96 := by
  have hsize := (of_ofParts?_eq_some h).1
  have hlt : a.size < 2 ^ 96 := a.size_lt
  rw [hsize] at hlt
  rw [Int.abs_eq_natAbs]
  exact_mod_cast hlt

/-- More places than these would make no difference to a result, or would not fit. -/
def IsFinest (q : ℚ) (places : Nat) : Prop :=
  (∃ k : Int, q * 10 ^ places = k) ∨ places = 28 ∨ 2 ^ 96 - 1 / 2 ≤ |q| * 10 ^ (places + 1)

section Quotient

variable {num : Int} {den places : Nat}

private theorem isHalfEven_scaled (num : Int) (hden : 0 < den) (places : Nat) :
    IsHalfEven ((num / den : ℚ) * 10 ^ places) (halfEvenInt (num * tenTo places) den) := by
  have hscaled := isHalfEven_halfEvenInt (num * tenTo places) hden
  push_cast at hscaled
  rwa [cast_tenTo, mul_div_right_comm] at hscaled

private theorem rounds_of_ofParts? (hden : 0 < den) (hplaces : places ≤ 28)
    (hfinest : IsFinest (num / den) places)
    (h : ofParts? (halfEvenInt (num * tenTo places) den) places = some a) :
    Rounds (num / den) a := by
  have hten : (10 : ℚ) ^ places ≠ 0 := by positivity
  have hround := isHalfEven_scaled num hden places
  have hvalue : a.value * 10 ^ places = (halfEvenInt (num * tenTo places) den : Int) := by
    rw [value_of_ofParts? h]
    exact div_mul_cancel₀ _ hten
  refine ⟨places, _, hplaces, abs_lt_of_ofParts? h, hvalue, hround, ?_⟩
  rcases hfinest with ⟨k, hk⟩ | hrest
  · left
    rw [hround.unique (.of_eq hk), ← hk] at hvalue
    exact mul_right_cancel₀ hten hvalue
  · exact .inr hrest

private theorem isFinest_of_ofParts?_eq_none (hden : 0 < den) (hplaces : places + 1 ≤ 28)
    (h : ofParts? (halfEvenInt (num * tenTo (places + 1)) den) (places + 1) = none) :
    IsFinest (num / den) places := by
  have hround := isHalfEven_scaled num hden (places + 1)
  have hgreat : 2 ^ 96 ≤ |halfEvenInt (num * tenTo (places + 1)) den| := by
    by_contra hlt
    have hfits : (halfEvenInt (num * tenTo (places + 1)) den).natAbs < twoTo 96 := by
      rw [Int.abs_eq_natAbs] at hlt
      exact_mod_cast not_le.mp hlt
    rw [ofParts?_of_fits hfits hplaces] at h
    cases h
  have hcast : (2 : ℚ) ^ 96 ≤ |((halfEvenInt (num * tenTo (places + 1)) den : Int) : ℚ)| := by
    exact_mod_cast hgreat
  have hten : (0 : ℚ) < 10 ^ (places + 1) := by positivity
  have hclose := hround.abs_le_add
  rw [abs_mul, abs_of_pos hten] at hclose
  exact .inr (.inr (by linarith))

private theorem rounds_of_nearest? (hden : 0 < den) (hplaces : places ≤ 28)
    (hfinest : IsFinest (num / den) places) (h : nearest? num den places = some a) :
    Rounds (num / den) a := by
  induction places with
  | zero =>
      have hone : num * ((tenTo 0 : Nat) : Int) = num := Int.mul_one num
      rw [nearest?, ← hone] at h
      exact rounds_of_ofParts? hden hplaces hfinest h
  | succ places ih =>
      unfold nearest? at h
      cases hparts : ofParts? (halfEvenInt (num * tenTo (places + 1)) den) (places + 1) with
      | some b =>
          rw [hparts] at h
          cases h
          exact rounds_of_ofParts? hden hplaces hfinest hparts
      | none =>
          rw [hparts] at h
          exact ih (by omega) (isFinest_of_ofParts?_eq_none hden hplaces hparts) h

end Quotient

theorem cast_add_div (a b : Decimal) :
    ((a.coefficient * tenTo (Nat.max a.scale b.scale - a.scale) +
      b.coefficient * tenTo (Nat.max a.scale b.scale - b.scale) : Int) : ℚ) /
        (tenTo (Nat.max a.scale b.scale) : Nat) = a.value + b.value := by
  have hunits : ∀ d : Decimal, d.scale ≤ Nat.max a.scale b.scale →
      ((d.coefficient * tenTo (Nat.max a.scale b.scale - d.scale) : Int) : ℚ) =
        d.value * 10 ^ (Nat.max a.scale b.scale) := by
    intro d hd
    have hsplit : (10 : ℚ) ^ (Nat.max a.scale b.scale) =
        10 ^ d.scale * 10 ^ (Nat.max a.scale b.scale - d.scale) := by
      rw [← pow_add, Nat.add_sub_cancel' hd]
    rw [hsplit, ← mul_assoc, value_mul_scale, Int.cast_mul, Int.cast_natCast, cast_tenTo]
  have hten : (10 : ℚ) ^ (Nat.max a.scale b.scale) ≠ 0 := by positivity
  rw [Int.cast_add, hunits a (Nat.le_max_left _ _), hunits b (Nat.le_max_right _ _), cast_tenTo,
    ← add_mul, mul_div_cancel_right₀ _ hten]

theorem rounds_add? (h : a.add? b = some c) : Rounds (a.value + b.value) c := by
  unfold add? at h
  split_ifs at h with ha hb
  · cases h
    exact .of_value (by rw [isZero_iff.mp ha, zero_add])
  · cases h
    exact .of_value (by rw [isZero_iff.mp hb, add_zero])
  · have hscale : Nat.max a.scale b.scale ≤ 28 := Nat.max_le.mpr ⟨a.scale_le, b.scale_le⟩
    have hden : 0 < tenTo (Nat.max a.scale b.scale) := tenTo_pos _
    have hten : (10 : ℚ) ^ (Nat.max a.scale b.scale) ≠ 0 := by positivity
    have hrounds := rounds_of_nearest? hden hscale ?_ h
    · rwa [cast_add_div] at hrounds
    · left
      rw [cast_tenTo]
      exact ⟨_, div_mul_cancel₀ _ hten⟩

theorem rounds_sub? (h : a.sub? b = some c) : Rounds (a.value - b.value) c := by
  unfold sub? at h
  have hrounds := rounds_add? h
  split_ifs at hrounds with hb
  · rwa [isZero_iff.mp hb, add_zero, ← sub_zero a.value, ← isZero_iff.mp hb] at hrounds
  · rwa [value_neg, ← sub_eq_add_neg] at hrounds

theorem value_of_add? (h : a.add? b = some c) (hsmall : |a.value + b.value| ≤ 7) :
    c.value = a.value + b.value := by
  obtain ⟨k, hk⟩ := a.exists_units a.scale_le
  obtain ⟨l, hl⟩ := b.exists_units b.scale_le
  refine (rounds_add? h).eq_of_units (k := k + l) le_rfl ?_ (by linarith)
  rw [add_mul, hk, hl, Int.cast_add]

theorem value_of_sub? (h : a.sub? b = some c) (hsmall : |a.value - b.value| ≤ 7) :
    c.value = a.value - b.value := by
  obtain ⟨k, hk⟩ := a.exists_units a.scale_le
  obtain ⟨l, hl⟩ := b.exists_units b.scale_le
  refine (rounds_sub? h).eq_of_units (k := k - l) le_rfl ?_ (by linarith)
  rw [sub_mul, hk, hl, Int.cast_sub]

theorem cast_mul_div (a b : Decimal) :
    ((a.coefficient * b.coefficient : Int) : ℚ) / (tenTo (a.scale + b.scale) : Nat) =
      a.value * b.value := by
  rw [cast_tenTo, pow_add, Int.cast_mul, mul_div_mul_comm]
  rfl

/-- Two numbers with few digits at many places have a product that is next to nothing. -/
theorem rounds_zero_of_short (ha : a.isShort = true) (hb : b.isShort = true)
    (hscale : 47 < a.scale + b.scale) : Rounds (a.value * b.value) zero := by
  have hsize : ∀ d : Decimal, d.isShort = true → |((d.coefficient : Int) : ℚ)| ≤ 2 ^ 32 := by
    intro d hd
    have hlt : d.size < 2 ^ 32 := of_decide_eq_true hd
    have habs : |d.coefficient| ≤ 2 ^ 32 := by
      rw [abs_coefficient]
      exact_mod_cast hlt.le
    exact_mod_cast habs
  have hten : (10 : ℚ) ^ 48 ≤ 10 ^ (a.scale + b.scale) := pow_le_pow_right₀ (by norm_num) hscale
  have hsmall : |a.value * b.value * 10 ^ 28| < 1 / 2 := by
    have hdigits : |((a.coefficient * b.coefficient : Int) : ℚ)| ≤ 2 ^ 64 := by
      rw [Int.cast_mul, abs_mul]
      have hmul := mul_le_mul (hsize a ha) (hsize b hb) (abs_nonneg _) (by norm_num)
      linarith
    have hpos : (0 : ℚ) < 10 ^ (a.scale + b.scale) := by positivity
    rw [abs_mul, ← cast_mul_div, abs_div, cast_tenTo, abs_of_pos hpos,
      abs_of_pos (show (0 : ℚ) < 10 ^ 28 by positivity), div_mul_eq_mul_div, div_lt_iff₀ hpos]
    linarith
  exact ⟨28, 0, le_rfl, by norm_num, by rw [value_zero, zero_mul, Int.cast_zero],
    .zero_of_small hsmall, .inr (.inl rfl)⟩

private theorem negative_of_nearest? {num : Int} {den places : Nat}
    (h : nearest? num den places = some a) (hvalue : a.value ≠ 0) :
    a.negative = decide (num < 0) := by
  obtain ⟨scale, -, hparts⟩ := nearest?_eq_some h
  obtain ⟨hsize, -, hsign⟩ := of_ofParts?_eq_some hparts
  have hten : (0 : Int) < tenTo scale := Int.natCast_pos.mpr (tenTo_pos scale)
  have hscaled : num * tenTo scale < 0 ↔ num < 0 :=
    ⟨fun h => neg_of_mul_neg_left h hten.le, fun h => mul_neg_of_neg_of_pos h hten⟩
  have hnonzero : halfEvenInt (num * tenTo scale) den ≠ 0 := by
    intro hzero
    rw [hzero] at hsize
    exact hvalue (isZero_iff.mp (beq_iff_eq.mpr hsize))
  have hiff : halfEvenInt (num * tenTo scale) den < 0 ↔ num < 0 := by
    rw [← hscaled]
    unfold halfEvenInt at hnonzero ⊢
    split_ifs at hnonzero ⊢ with hneg
    · simp only [hneg, iff_true]
      omega
    · simp only [hneg, iff_false]
      omega
  rw [hsign]
  exact decide_eq_decide.mpr hiff

private theorem decide_mul_neg (ha : a.isZero = false) (hb : b.isZero = false) :
    decide (a.coefficient * b.coefficient < 0) = (a.negative != b.negative) := by
  have hasize : a.size ≠ 0 := ne_of_beq_false ha
  have hbsize : b.size ≠ 0 := ne_of_beq_false hb
  have hpos : (0 : Int) < a.size * b.size := by positivity
  unfold coefficient
  cases a.negative <;> cases b.negative <;> simp <;> omega

theorem rounds_mul? (h : a.mul? b = some c) : Rounds (a.value * b.value) c := by
  have hproduct : ∀ {d : Decimal}, nearest? (a.coefficient * b.coefficient)
      (tenTo (a.scale + b.scale)) (Nat.min maxScale (a.scale + b.scale)) = some d →
      Rounds (a.value * b.value) d := by
    intro d hd
    have hplaces : Nat.min maxScale (a.scale + b.scale) ≤ 28 := Nat.min_le_left _ _
    have hrounds := rounds_of_nearest? (tenTo_pos _) hplaces ?_ hd
    · rwa [cast_mul_div] at hrounds
    · rcases Nat.le_total (a.scale + b.scale) maxScale with hle | hle
      · left
        have hten : (10 : ℚ) ^ (a.scale + b.scale) ≠ 0 := by positivity
        have hmin : Nat.min maxScale (a.scale + b.scale) = a.scale + b.scale := Nat.min_eq_right hle
        refine ⟨a.coefficient * b.coefficient, ?_⟩
        rw [hmin, cast_tenTo]
        exact div_mul_cancel₀ _ hten
      · exact .inr (.inl (Nat.min_eq_left hle))
  unfold mul? at h
  simp only at h
  split_ifs at h with hzero hshort hscale
  · cases h
    refine .of_value ?_
    rw [value_zero, eq_comm, mul_eq_zero, ← isZero_iff, ← isZero_iff]
    exact Bool.or_eq_true_iff.mp hzero
  · cases h
    rw [Bool.and_eq_true] at hshort
    exact rounds_zero_of_short hshort.1 hshort.2 hscale
  · exact hproduct h
  · obtain ⟨d, hd, rfl⟩ := Option.map_eq_some_iff.mp h
    have hsame : (d.withSign (a.negative != b.negative)).value = d.value := by
      refine value_withSign fun hvalue => ?_
      rw [negative_of_nearest? hd hvalue]
      rw [Bool.not_eq_true, Bool.or_eq_false_iff] at hzero
      exact decide_mul_neg hzero.1 hzero.2
    exact (hproduct hd).congr hsame

theorem coefficient_ne_zero (h : a.isZero = false) : a.coefficient ≠ 0 := by
  intro hzero
  have habs := abs_coefficient a
  rw [hzero, abs_zero] at habs
  exact ne_of_beq_false h (by exact_mod_cast habs.symm)

theorem pow_sub_div_pow_sub (s t : Nat) :
    (10 : ℚ) ^ (s - t) / 10 ^ (t - s) = 10 ^ s / 10 ^ t := by
  have hs : (10 : ℚ) ^ s ≠ 0 := by positivity
  have ht : (10 : ℚ) ^ t ≠ 0 := by positivity
  rcases Nat.le_total s t with hle | hle
  · obtain ⟨more, rfl⟩ := Nat.exists_eq_add_of_le hle
    rw [Nat.sub_eq_zero_of_le hle, Nat.add_sub_cancel_left, pow_zero, pow_add,
      div_mul_eq_div_div, div_self hs]
  · obtain ⟨more, rfl⟩ := Nat.exists_eq_add_of_le hle
    rw [Nat.sub_eq_zero_of_le hle, Nat.add_sub_cancel_left, pow_zero, pow_add, div_one,
      mul_div_cancel_left₀ _ ht]

private theorem value_of_even_quotient {n : Int} {places : Nat} (hb : b.isZero = false)
    (heven : n % b.coefficient = 0)
    (h : ofParts? (n / b.coefficient * tenTo (b.scale - places)) (places - b.scale) = some c) :
    c.value = n / 10 ^ places / b.value := by
  have hcoefficient : (b.coefficient : ℚ) ≠ 0 := by exact_mod_cast coefficient_ne_zero hb
  have hscale : (10 : ℚ) ^ b.scale ≠ 0 := by positivity
  have hmul : (n : ℚ) = b.coefficient * (n / b.coefficient : Int) := by
    exact_mod_cast (Int.mul_ediv_cancel_of_emod_eq_zero heven).symm
  have hvalue := value_of_ofParts? h
  rw [Int.cast_mul, Int.cast_natCast, cast_tenTo, mul_div_assoc, pow_sub_div_pow_sub] at hvalue
  rw [hvalue, value, hmul]
  field_simp

private theorem value_of_writtenOut? (hb : b.isZero = false) (h : a.writtenOut? b = some c) :
    c.value = a.value / b.value := by
  obtain ⟨k, -, hparts⟩ := List.exists_of_findSome?_eq_some h
  simp only at hparts
  split_ifs at hparts with heven
  have hvalue := value_of_even_quotient hb heven hparts
  have hten : (10 : ℚ) ^ (9 * (k + 1)) ≠ 0 := by positivity
  rw [Int.cast_mul, Int.cast_natCast, cast_tenTo, pow_add, mul_div_mul_right _ _ hten] at hvalue
  exact hvalue

theorem cast_div (a b : Decimal) :
    (((if a.negative = b.negative then (a.size * tenTo b.scale : Int)
      else -(a.size * tenTo b.scale : Int) : Int) : ℚ) / (b.size * tenTo a.scale : Nat)) =
        a.value / b.value := by
  have ha : (10 : ℚ) ^ a.scale ≠ 0 := by positivity
  have hb : (10 : ℚ) ^ b.scale ≠ 0 := by positivity
  have hsizes : ((a.size : ℚ) * 10 ^ b.scale) / (b.size * 10 ^ a.scale) =
      (a.size / 10 ^ a.scale) / (b.size / 10 ^ b.scale) := by
    rw [div_div_div_eq, mul_comm (b.size : ℚ)]
  unfold value coefficient
  cases a.negative <;> cases b.negative <;> simp [cast_tenTo, hsizes, neg_div, div_neg]

theorem rounds_div? (h : a.div? b = some c) : Rounds (a.value / b.value) c := by
  unfold div? at h
  by_cases hb : b.isZero = true
  · rw [if_pos hb] at h
    cases h
  by_cases ha : a.isZero = true
  · rw [if_neg hb, if_pos ha] at h
    cases h
    exact .of_value (by rw [isZero_iff.mp ha, value_zero, zero_div])
  rw [if_neg hb, if_neg ha] at h
  rw [Bool.not_eq_true] at hb
  by_cases heven : a.coefficient % b.coefficient = 0
  · rw [if_pos heven] at h
    exact .of_value (value_of_even_quotient hb heven h)
  · rw [if_neg heven] at h
    obtain ⟨d, hd, rfl⟩ := Option.map_eq_some_iff.mp h
    refine Rounds.congr (a := d) ?_ (value_shorten d)
    rcases Option.or_eq_some_iff.mp hd with hwritten | ⟨-, hnearest⟩
    · exact .of_value (value_of_writtenOut? hb hwritten)
    · have hbsize : b.size ≠ 0 := ne_of_beq_false hb
      have hden : 0 < b.size * tenTo a.scale :=
        Nat.mul_pos (Nat.pos_of_ne_zero hbsize) (tenTo_pos _)
      have hrounds := rounds_of_nearest? hden le_rfl (.inr (.inl rfl)) hnearest
      rwa [cast_div a b] at hrounds

end Bureau.Decimal
