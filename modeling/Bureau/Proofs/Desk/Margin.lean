import Bureau.Desk.Basic
import Bureau.Proofs.Rate.Margin

/-!
Margins that have been validated. Tables and policies accept margins from zero up to below a hundred
percent only, and such a margin can be taken off every rate.
-/

set_option autoImplicit false

namespace Bureau

open Attempt

private theorem Policy.isMargin_of_validate {p : Policy} (h : p.validate = .ok ()) :
    p.defaultMargin.IsMargin := by
  unfold validate at h
  split_ifs at h with hlife hmargin
  rw [not_or] at hmargin
  exact ⟨Decimal.le_of_not_lt hmargin.1, Decimal.lt_of_not_le hmargin.2⟩

namespace Desk

/-- A desk whose policy was validated and whose table was accepted. -/
structure IsValid (d : Desk) : Prop where
  policy : d.policy.validate = .ok ()
  registry : ∃ corridors, Registry.ofList corridors = .ok d.registry

theorem IsValid.corridor {d : Desk} (h : d.IsValid) {pair : CurrencyPair} {c : Corridor}
    (hfind : d.registry.find? pair = some c) : c.IsValid := by
  obtain ⟨corridors, hlist⟩ := h.registry
  exact Corridor.isValid_of_validate (Registry.isValid_ofList hlist c (Registry.mem_of_find? hfind))

theorem IsValid.isMargin {d : Desk} (h : d.IsValid) (pair : CurrencyPair) :
    (d.marginOf pair).IsMargin := by
  unfold marginOf
  cases hfind : d.registry.find? pair with
  | none => exact Policy.isMargin_of_validate h.policy
  | some c => exact (h.corridor hfind).isMargin

theorem IsValid.exists_withMargin {d : Desk} (h : d.IsValid) (rate : Rate) :
    ∃ shown, d.withMargin rate = .ok shown :=
  ExchangeRate.exists_withMargin rate (h.isMargin rate.pair)

theorem IsValid.exists_mapM_withMargin {d : Desk} (h : d.IsValid) (rates : List Rate) :
    ∃ shown, rates.mapM d.withMargin = .ok shown := by
  induction rates with
  | nil => exact ⟨[], rfl⟩
  | cons rate rest ih =>
      obtain ⟨first, hfirst⟩ := h.exists_withMargin rate
      obtain ⟨others, hothers⟩ := ih
      refine ⟨first :: others, ?_⟩
      rw [List.mapM_cons, hfirst, hothers]
      rfl

end Desk

end Bureau
