import Bureau.Proofs.Desk.Standard

/-!
Least fees. The fee of a quote is rounded to whole units of the source currency after the least fee has
been compared with the corridor's share. A least fee that is finer than the units is rounded with it,
and then less than the least fee may be charged.
-/

set_option autoImplicit false

namespace Bureau

open Decimal

namespace Figures.Price

variable {x : Figures} {c : Corridor} {shown : ExchangeRate} {pair : CurrencyPair} {amount : Decimal}

private theorem value_fee (h : x.Price c shown pair amount) :
    x.fee.value = Max.max (x.share.roundTo pair.source.decimalPlaces).value
      c.feeMinimum.round.value.value := by
  rw [h.fee_eq, Money.round, h.currency_eq]
  exact value_roundTo_max _ _ _

private theorem round_minimum_le_fee (h : x.Price c shown pair amount) :
    c.feeMinimum.round.value ≤ x.fee := by
  rw [le_iff, h.value_fee]
  exact le_max_right _ _

private theorem minimum_le_fee_iff (h : x.Price c shown pair amount) :
    c.feeMinimum.value ≤ x.fee ↔ c.feeMinimum.value ≤ c.feeMinimum.round.value ∨
      c.feeMinimum.value ≤ x.share.roundTo pair.source.decimalPlaces := by
  simp only [le_iff]
  rw [h.value_fee, le_max_iff, or_comm]

private theorem minimum_le_fee_of_units (h : x.Price c shown pair amount) {n : Int}
    (hunits : c.feeMinimum.value.value * 10 ^ c.feeMinimum.currency.decimalPlaces = n) :
    c.feeMinimum.value ≤ x.fee :=
  h.minimum_le_fee_iff.mpr (.inl (le_iff.mpr (value_roundTo_of_units hunits).ge))

end Figures.Price

namespace MarketDesk

variable {σ μ : Type} {H : Program.Handler (Attempt (RunState σ μ))} {d : Desk} {pair : CurrencyPair}
  {f g : RunState σ μ}

/-- A quote charges at least the rounded least fee of its corridor. It charges the least fee itself
where that or the share is rounded to no less, and nowhere else; so it does where the least fee is in
whole units. -/
theorem charges_minimum_iff (hcrash : EndsOnCrash H) {c : Corridor}
    (hfind : d.registry.find? pair = some c) {amount : Decimal} {q : Quote}
    (hquote : serveBy H (d.quote pair amount).run f = (.ok (.ok q), g)) :
    c.feeMinimum.round.value ≤ q.fee.value ∧
      (c.feeMinimum.value ≤ q.fee.value ↔
        c.feeMinimum.value ≤ c.feeMinimum.round.value ∨
          ∃ share, c.share? amount = some share ∧
            c.feeMinimum.value ≤ (Money.mk share pair.source).round.value) ∧
      ((∃ n : Int, c.feeMinimum.value.value * 10 ^ c.feeMinimum.currency.decimalPlaces = n) →
        c.feeMinimum.value ≤ q.fee.value) := by
  obtain ⟨c', shown, k, x, id, hcorridor, hrate, hx, -, rfl⟩ :=
    (serveBy_quote_eq_ok_iff hcrash).mp hquote
  obtain ⟨-, hfind', -⟩ := Desk.corridorFor_eq_ok_iff.mp hcorridor
  obtain rfl : c' = c := Option.some.inj (hfind'.symm.trans hfind)
  refine ⟨hx.round_minimum_le_fee, hx.minimum_le_fee_iff.trans (or_congr_right ?_),
    fun ⟨n, hunits⟩ => hx.minimum_le_fee_of_units hunits⟩
  constructor
  · exact fun hle => ⟨x.share, hx.share_eq, hle⟩
  · rintro ⟨share, hshare, hle⟩
    obtain rfl : x.share = share := Option.some.inj (hx.share_eq.symm.trans hshare)
    exact hle

/-- On a thousand euros the share is more than a least fee of 2.994 euros, which is finer than a cent.
-/
theorem charges_minimum_iff_thousand :
    let minimum : Decimal := ⟨false, 2994, 3, by decide, by decide⟩
    let thousand : Decimal := ⟨false, 1000, 0, by decide, by decide⟩
    let d := Desk.euroDollar minimum
    ∃ q g, (ofProvider d).serve .epoch (d.quote .euroDollar thousand).run euroDollarState =
      (.ok (.ok q), g) ∧ minimum ≤ q.fee.value := by
  intro minimum thousand d
  have hless : minimum ≤ ⟨false, 5000, 3, by decide, by decide⟩ := by decide +kernel
  obtain ⟨figures, hshare, hfigures⟩ := Figures.exists_price_thousand hless
  obtain ⟨id, g, hserve⟩ := serve_quote_euroDollar (by decide) hfigures
  obtain ⟨-, hcharges, -⟩ := charges_minimum_iff ((ofProvider d).endsOnCrash_handler _) rfl hserve
  refine ⟨_, g, hserve, hcharges.mpr (.inr ⟨_, hfigures.share_eq, ?_⟩)⟩
  rw [hshare]
  decide +kernel

/-- On a hundred euros an accepted corridor with this least fee charges 2.99 euros. -/
theorem undercharges_fine_minimum :
    let minimum : Decimal := ⟨false, 2994, 3, by decide, by decide⟩
    let d := Desk.euroDollar minimum
    Registry.ofList [.euroDollar minimum] = .ok d.registry ∧
      d.registry.find? .euroDollar = some (.euroDollar minimum) ∧
      ∃ q g, (ofProvider d).serve .epoch (d.quote .euroDollar hundred).run euroDollarState =
          (.ok (.ok q), g) ∧
        q.fee.value < (Corridor.euroDollar minimum).feeMinimum.value := by
  intro minimum d
  let figures : Figures :=
    ⟨⟨false, 500, 3, by decide, by decide⟩, ⟨false, 299, 2, by decide, by decide⟩,
      ⟨false, 99700, 3, by decide, by decide⟩, ⟨false, 10299, 2, by decide, by decide⟩⟩
  have hfigures : figures.Price (.euroDollar minimum) .euroDollar .euroDollar hundred :=
    ⟨rfl, by decide +kernel, by decide +kernel, by decide +kernel, by decide +kernel⟩
  obtain ⟨id, g, hserve⟩ := serve_quote_euroDollar (by decide) hfigures
  have hless : figures.fee < minimum := by decide +kernel
  exact ⟨rfl, rfl, _, g, hserve, hless⟩

end MarketDesk

end Bureau
