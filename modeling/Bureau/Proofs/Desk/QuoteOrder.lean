import Bureau.Proofs.Desk.Standard

/-!
Quotes side by side. Greater amounts have greater figures, and an amount is quoted wherever a greater
one is. No figure is to the cost of the house: fees are never negative, and what is delivered is never
more than the amount is worth at mid.
-/

set_option autoImplicit false

namespace Bureau

open Decimal

/-! ### Shares -/

namespace Corridor

variable {c : Corridor} {a b amount share factor : Decimal}

private theorem IsValid.zero_le_factor (hc : c.IsValid)
    (h : c.feePercentage.div? hundred = some factor) :
    zero ≤ factor := by
  have hfee := zero_le_iff.mp hc.fee_nonneg
  refine (rounds_div? h).zero_le ?_
  rw [value_hundred]
  positivity

private theorem IsValid.zero_le_share (hc : c.IsValid) (hamount : zero ≤ amount)
    (h : c.share? amount = some share) : zero ≤ share := by
  obtain ⟨factor, hfactor, hshare⟩ := Option.bind_eq_some_iff.mp h
  exact (rounds_mul? hshare).zero_le
    (mul_nonneg (zero_le_iff.mp hamount) (zero_le_iff.mp (hc.zero_le_factor hfactor)))

private theorem IsValid.exists_share_le (hc : c.IsValid) (ha : zero ≤ a) (hab : a ≤ b)
    (h : c.share? b = some share) : ∃ less, c.share? a = some less ∧ less ≤ share := by
  obtain ⟨factor, hfactor, hshare⟩ := Option.bind_eq_some_iff.mp h
  obtain ⟨less, hless, hle⟩ := exists_mul?_le hshare (hc.zero_le_factor hfactor) ha hab
  refine ⟨less, ?_, hle⟩
  rw [share?, hfactor]
  exact hless

/-! ### Fees -/

variable {currency : Currency}

private theorem zero_le_feeIn (h : zero ≤ share) : zero ≤ c.feeIn currency share := by
  refine zero_le_roundTo ?_ _
  rw [zero_le_iff, value_max]
  exact (zero_le_iff.mp h).trans (le_max_left _ _)

private theorem feeIn_mono {less : Decimal} (h : less ≤ share) :
    c.feeIn currency less ≤ c.feeIn currency share := by
  refine roundTo_mono ?_ _
  rw [le_iff, value_max, value_max]
  exact max_le_max_right _ (le_iff.mp h)

end Corridor

/-! ### Figures -/

namespace Figures.Price

variable {c : Corridor} {shown : ExchangeRate} {pair : CurrencyPair} {a b amount : Decimal}
  {x : Figures}

private theorem zero_le_fee (h : x.Price c shown pair amount) (hc : c.IsValid)
    (hamount : zero ≤ amount) :
    zero ≤ x.fee := by
  rw [h.fee_eq]
  exact Corridor.zero_le_feeIn (hc.zero_le_share hamount h.share_eq)

private theorem exists_le (h : x.Price c shown pair b) (hc : c.IsValid) (hbuy : zero ≤ shown.buyRate)
    (ha : zero ≤ a) (hab : a ≤ b) :
    ∃ y : Figures, y.Price c shown pair a ∧ y.fee ≤ x.fee ∧ y.gross ≤ x.gross ∧
      y.total ≤ x.total := by
  obtain ⟨share, hshare, hshareLe⟩ := hc.exists_share_le ha hab h.share_eq
  obtain ⟨gross, hgross, hgrossLe⟩ := exists_mul?_le h.gross_eq hbuy ha hab
  have hfee : c.feeIn pair.source share ≤ x.fee := by
    rw [h.fee_eq]
    exact Corridor.feeIn_mono hshareLe
  obtain ⟨total, htotal, htotalLe⟩ := exists_add?_le h.total_eq ha
    (Corridor.zero_le_feeIn (hc.zero_le_share ha hshare)) hab hfee
  exact ⟨⟨share, _, gross, total⟩, ⟨h.currency_eq, hshare, rfl, hgross, htotal⟩, hfee, hgrossLe,
    htotalLe⟩

private theorem gross_le (h : x.Price c shown pair amount) (hshown : shown.IsBelowMid)
    (hamount : zero ≤ amount) {atMid : Decimal} (hmid : amount.mul? shown.mid = some atMid) :
    x.gross ≤ atMid :=
  (rounds_mul? h.gross_eq).mono (rounds_mul? hmid)
    (mul_le_mul_of_nonneg_left (le_iff.mp hshown.le_mid) (zero_le_iff.mp hamount))

private theorem zero_le_gross (h : x.Price c shown pair amount) (hshown : shown.IsBelowMid)
    (hamount : zero ≤ amount) : zero ≤ x.gross :=
  (rounds_mul? h.gross_eq).zero_le
    (mul_nonneg (zero_le_iff.mp hamount) (zero_le_iff.mp hshown.zero_le))

private theorem amount_le_total (h : x.Price c shown pair amount) (hc : c.IsValid)
    (hamount : zero ≤ amount) :
    amount ≤ x.total :=
  (rounds_add? h.total_eq).ge_of_ge
    (le_add_of_nonneg_right (zero_le_iff.mp (h.zero_le_fee hc hamount)))

end Figures.Price

/-! ### Quotes -/

/-- A quote for an amount that is not to the cost of the house. -/
structure Quote.CostsNothing (q : Quote) (amount : Decimal) : Prop where
  zero_le_fee : zero ≤ q.fee.value
  amount_le_total : amount ≤ q.totalCost.value
  sourceAmount_eq : q.sourceAmount.value = amount
  zero_le_target : zero ≤ q.targetAmount.value
  /-- No more is delivered than the amount at mid, rounded in the same way. -/
  target_le : ∀ atMid, (Money.mk amount q.targetCurrency).mul? q.midMarketRate = some atMid →
    q.targetAmount.value ≤ atMid.round.value

private theorem Figures.Price.costsNothing {x : Figures} {c : Corridor} {shown : ExchangeRate}
    {pair : CurrencyPair} {amount : Decimal} (h : x.Price c shown pair amount) (hc : c.IsValid)
    (hshown : shown.IsBelowMid) (hamount : zero ≤ amount) (id : Uuid) :
    (x.quote shown pair amount id).CostsNothing amount where
  zero_le_fee := h.zero_le_fee hc hamount
  amount_le_total := h.amount_le_total hc hamount
  sourceAmount_eq := rfl
  zero_le_target := zero_le_roundTo (h.zero_le_gross hshown hamount) _
  target_le atMid hatMid := by
    obtain ⟨value, hvalue, rfl⟩ := Option.map_eq_some_iff.mp hatMid
    exact roundTo_mono (h.gross_le hshown hamount hvalue) _

namespace MarketDesk

open Attempt

variable {σ μ : Type} {H : Program.Handler (Attempt (RunState σ μ))} {d : Desk} {pair : CurrencyPair}
  {f g : RunState σ μ}

private theorem isBelowMid_of_serveBy_rate (hcrash : EndsOnCrash H) (hd : d.IsValid)
    {shown : ExchangeRate} (h : serveBy H (d.rate pair).run f = (.ok (.ok shown), g))
    (hmid : zero ≤ shown.mid) :
    shown.IsBelowMid := by
  obtain ⟨rate, hmargin⟩ := exists_withMargin_of_serveBy_rate hcrash h
  exact ExchangeRate.isBelowMid_of_withMargin (hd.isMargin rate.pair) hmargin hmid

/-- Quotes keep the order of amounts: where an amount is quoted, so is a smaller one from the same
state, at no greater fee, for no more money delivered and at no greater cost. -/
theorem quote_mono (hcrash : EndsOnCrash H) (hd : d.IsValid) {a b : Decimal} (ha : zero < a)
    (hab : a ≤ b) {q : Quote} (hquote : serveBy H (d.quote pair b).run f = (.ok (.ok q), g))
    (hmid : zero ≤ q.midMarketRate) :
    ∃ p, serveBy H (d.quote pair a).run f = (.ok (.ok p), g) ∧ p.fee.value ≤ q.fee.value ∧
      p.targetAmount.value ≤ q.targetAmount.value ∧ p.totalCost.value ≤ q.totalCost.value := by
  obtain ⟨c, shown, k, x, id, hcorridor, hrate, hx, hid, rfl⟩ :=
    (serveBy_quote_eq_ok_iff hcrash).mp hquote
  obtain ⟨-, hfind, henabled⟩ := Desk.corridorFor_eq_ok_iff.mp hcorridor
  have hshown := isBelowMid_of_serveBy_rate hcrash hd hrate hmid
  obtain ⟨y, hy, hfee, hgross, htotal⟩ :=
    hx.exists_le (hd.corridor hfind) hshown.zero_le (Int.le_of_lt ha) hab
  refine ⟨y.quote shown pair a id, ?_, hfee, roundTo_mono hgross _, htotal⟩
  exact (serveBy_quote_eq_ok_iff hcrash).mpr
    ⟨c, shown, k, y, id, Desk.corridorFor_eq_ok_iff.mpr ⟨ha, hfind, henabled⟩, hrate, hy, hid, rfl⟩

/-- A hundred euros after a thousand. -/
theorem quote_mono_hundred :
    let minimum : Decimal := ⟨false, 299, 2, by decide, by decide⟩
    let thousand : Decimal := ⟨false, 1000, 0, by decide, by decide⟩
    let d := Desk.euroDollar minimum
    ∃ p q g, (ofProvider d).serve .epoch (d.quote .euroDollar thousand).run euroDollarState =
        (.ok (.ok q), g) ∧
      (ofProvider d).serve .epoch (d.quote .euroDollar hundred).run euroDollarState =
        (.ok (.ok p), g) ∧
      p.fee.value ≤ q.fee.value ∧ p.targetAmount.value ≤ q.targetAmount.value ∧
      p.totalCost.value ≤ q.totalCost.value := by
  intro minimum thousand d
  have hless : minimum ≤ ⟨false, 5000, 3, by decide, by decide⟩ := by decide +kernel
  obtain ⟨figures, -, hfigures⟩ := Figures.exists_price_thousand hless
  have hmid : zero ≤ ExchangeRate.euroDollar.mid := by decide
  obtain ⟨id, g, hserve⟩ := serve_quote_euroDollar (by decide) hfigures
  obtain ⟨p, hp⟩ := quote_mono (a := hundred) ((ofProvider d).endsOnCrash_handler _)
    (Desk.isValid_euroDollar minimum) (by decide) (by decide) hserve hmid
  exact ⟨p, _, g, hserve, hp⟩

/-- The house never pays for a margin or a fee. -/
theorem quote_costs_nothing (hcrash : EndsOnCrash H) (hd : d.IsValid) :
    (∀ rate : Rate, zero ≤ rate.mid →
      ∃ shown, d.withMargin rate = .ok shown ∧ shown.rate = rate ∧
        shown.marginPercent = d.marginOf rate.pair ∧ shown.IsBelowMid) ∧
    ∀ (pair : CurrencyPair) (amount : Decimal) (f g : RunState σ μ) (q : Quote),
      serveBy H (d.quote pair amount).run f = (.ok (.ok q), g) → zero ≤ q.midMarketRate →
        q.CostsNothing amount := by
  constructor
  · intro rate hmid
    obtain ⟨shown, hshown⟩ := hd.exists_withMargin rate
    obtain ⟨part, rest, buyRate, -, -, -, rfl⟩ := ExchangeRate.withMargin_eq_ok_iff.mp hshown
    exact ⟨_, hshown, rfl, rfl,
      ExchangeRate.isBelowMid_of_withMargin (hd.isMargin rate.pair) hshown hmid⟩
  · intro pair amount f g q hquote hmid
    obtain ⟨c, shown, k, x, id, hcorridor, hrate, hx, -, rfl⟩ :=
      (serveBy_quote_eq_ok_iff hcrash).mp hquote
    obtain ⟨hpos, hfind, -⟩ := Desk.corridorFor_eq_ok_iff.mp hcorridor
    exact hx.costsNothing (hd.corridor hfind) (isBelowMid_of_serveBy_rate hcrash hd hrate hmid)
      (Int.le_of_lt hpos) id

/-- One euro over a corridor with a least fee below zero. -/
theorem quote_costs_nothing_negative :
    let minimum : Decimal := ⟨true, 2, 0, by decide, by decide⟩
    let d := Desk.euroDollar minimum
    ∃ q g, (ofProvider d).serve .epoch (d.quote .euroDollar one).run euroDollarState =
        (.ok (.ok q), g) ∧ q.CostsNothing one := by
  intro minimum d
  let figures : Figures :=
    ⟨⟨false, 5, 3, by decide, by decide⟩, ⟨false, 0, 2, by decide, by decide⟩,
      ⟨false, 997, 3, by decide, by decide⟩, one⟩
  have hfigures : figures.Price (.euroDollar minimum) .euroDollar .euroDollar one :=
    ⟨rfl, by decide +kernel, by decide +kernel, by decide +kernel, by decide +kernel⟩
  have hmid : zero ≤ ExchangeRate.euroDollar.mid := by decide
  obtain ⟨id, g, hserve⟩ := serve_quote_euroDollar (by decide) hfigures
  have hcosts := quote_costs_nothing (σ := PlainStore) ((ofProvider d).endsOnCrash_handler .epoch)
    (Desk.isValid_euroDollar minimum)
  exact ⟨_, g, hserve, hcosts.2 _ _ _ g _ hserve hmid⟩

end MarketDesk

end Bureau
