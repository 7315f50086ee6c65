import Bureau.Proofs.Corridor.Registry
import Bureau.Proofs.Decimal.Rounding
import Bureau.Rate.Market

/-!
What a margin leaves of a rate. The customer's rate lies between nothing and mid, rounding included:
a margin that was accepted leaves a part of one, and a part of mid is never rounded beyond mid.
-/

set_option autoImplicit false

namespace Bureau.ExchangeRate

open Attempt Decimal

variable {rate : Rate} {m part rest : Decimal} {shown : ExchangeRate}

theorem withMargin_eq_ok_iff :
    withMargin rate m = .ok shown ↔
      ∃ part rest buyRate, m.div? hundred = some part ∧ one.sub? part = some rest ∧
        rate.mid.mul? rest = some buyRate ∧ shown = ⟨rate, buyRate, m⟩ := by
  unfold withMargin
  constructor
  · intro h
    obtain ⟨buyRate, hbuy, hshown⟩ := exists_of_bind_eq_ok h
    obtain ⟨part, hpart, hbuy⟩ := Option.bind_eq_some_iff.mp (unless_eq_ok hbuy)
    obtain ⟨rest, hrest, hbuy⟩ := Option.bind_eq_some_iff.mp hbuy
    cases hshown
    exact ⟨part, rest, buyRate, hpart, hrest, hbuy, rfl⟩
  · rintro ⟨part, rest, buyRate, hpart, hrest, hbuy, rfl⟩
    simp only [hpart, Option.bind_eq_bind, Option.bind_some, hrest, hbuy]
    rfl

theorem exists_withMargin (rate : Rate) (hm : m.IsMargin) :
    ∃ shown, withMargin rate m = .ok shown := by
  obtain ⟨part, hpart, hisPart⟩ := exists_div?_hundred hm.1 hm.2
  obtain ⟨rest, hrest, hisRest⟩ := exists_one_sub? hisPart
  obtain ⟨buyRate, hbuy⟩ := exists_mul?_of_isPart rate.mid hisRest
  exact ⟨_, withMargin_eq_ok_iff.mpr ⟨part, rest, buyRate, hpart, hrest, hbuy, rfl⟩⟩

private theorem rest_bounds (hm : m.IsMargin) (hpart : m.div? hundred = some part)
    (hrest : one.sub? part = some rest) : 0 ≤ rest.value ∧ rest.value ≤ 1 := by
  have hlow := zero_le_iff.mp hm.1
  have hhigh := lt_iff.mp hm.2
  rw [value_hundred] at hhigh
  have hpartRounds := rounds_div? hpart
  rw [value_hundred] at hpartRounds
  obtain ⟨hpart0, hpart1⟩ := hpartRounds.unit_bounds (by positivity) (by linarith)
  have hrestRounds := rounds_sub? hrest
  rw [value_one] at hrestRounds
  exact hrestRounds.unit_bounds (by linarith) (by linarith)

private theorem rest_of_zero (hm : m.value = 0) (hpart : m.div? hundred = some part)
    (hrest : one.sub? part = some rest) : rest.value = 1 := by
  have hpartRounds := rounds_div? hpart
  rw [hm, zero_div] at hpartRounds
  have hrestRounds := rounds_sub? hrest
  rw [hpartRounds.value_eq (.of_value value_zero), value_zero, sub_zero] at hrestRounds
  exact hrestRounds.value_eq (.of_value rfl) |>.trans value_one

/-- The customer's rate is no less than nothing and no more than mid, and it is mid if there is no
margin. -/
structure IsBelowMid (shown : ExchangeRate) : Prop where
  zero_le : zero ≤ shown.buyRate
  le_mid : shown.buyRate ≤ shown.mid
  eq_mid : shown.marginPercent.isZero = true → shown.buyRate.sameValue shown.mid = true

theorem isBelowMid_of_withMargin (hm : m.IsMargin) (h : withMargin rate m = .ok shown)
    (hmid : zero ≤ shown.mid) : shown.IsBelowMid := by
  obtain ⟨part, rest, buyRate, hpart, hrest, hbuy, rfl⟩ := withMargin_eq_ok_iff.mp h
  obtain ⟨hrest0, hrest1⟩ := rest_bounds hm hpart hrest
  have hmid0 := zero_le_iff.mp hmid
  have hrounds := rounds_mul? hbuy
  refine ⟨hrounds.zero_le ?_, hrounds.le_of_le ?_, fun hnone => ?_⟩
  · exact mul_nonneg hmid0 hrest0
  · exact mul_le_of_le_one_right hmid0 hrest1
  · rw [rest_of_zero (isZero_iff.mp hnone) hpart hrest, mul_one] at hrounds
    exact sameValue_iff.mpr (hrounds.value_eq (.of_value rfl))

end Bureau.ExchangeRate
