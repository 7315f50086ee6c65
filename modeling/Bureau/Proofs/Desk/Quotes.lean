import Bureau.Proofs.Decimal.Places
import Bureau.Proofs.Decimal.Precision
import Bureau.Proofs.Desk.Margin
import Bureau.Proofs.Serving.Basic

/-!
The figures of quotes. A quote is given exactly where its figures can be written down: the corridor's
share of the amount, the amount at the customer's rate, and the amount with the fee. Whatever serves the
desk, those figures depend on the corridor, the rate that is shown and the amount alone.
-/

set_option autoImplicit false

namespace Bureau

open Attempt

/-! ### Figures -/

def Corridor.share? (c : Corridor) (amount : Decimal) : Option Decimal :=
  (c.feePercentage.div? Decimal.hundred).bind amount.mul?

/-- The fee for a share in a currency: the share or the least fee, in whole units. -/
def Corridor.feeIn (c : Corridor) (currency : Currency) (share : Decimal) : Decimal :=
  (share.max c.feeMinimum.value).roundTo currency.decimalPlaces

structure Figures where
  /-- The corridor's share of the amount. -/
  share : Decimal
  fee : Decimal
  /-- The amount at the customer's rate. -/
  gross : Decimal
  /-- The amount and the fee together. -/
  total : Decimal

namespace Figures

/-- Figures for an amount over a corridor at a rate. -/
structure Price (x : Figures) (c : Corridor) (shown : ExchangeRate) (pair : CurrencyPair)
    (amount : Decimal) : Prop where
  currency_eq : c.feeMinimum.currency = pair.source
  share_eq : c.share? amount = some x.share
  fee_eq : x.fee = c.feeIn pair.source x.share
  gross_eq : amount.mul? shown.buyRate = some x.gross
  total_eq : amount.add? x.fee = some x.total

def quote (x : Figures) (shown : ExchangeRate) (pair : CurrencyPair) (amount : Decimal)
    (quoteId : Uuid) : Quote where
  quoteId := quoteId
  sourceCurrency := pair.source
  targetCurrency := pair.target
  sourceAmount := ⟨amount, pair.source⟩
  targetAmount := ⟨x.gross.roundTo pair.target.decimalPlaces, pair.target⟩
  exchangeRate := shown.buyRate
  midMarketRate := shown.mid
  fee := ⟨x.fee, pair.source⟩
  totalCost := ⟨x.total, pair.source⟩
  validUntil := shown.validUntil

end Figures

/-! ### Pricing -/

namespace Desk

variable {c : Corridor} {shown : ExchangeRate} {pair : CurrencyPair} {amount : Decimal}

theorem exists_feeFor (corridor : Corridor) (amount : Money) :
    ∃ fee, (feeFor corridor amount).run = .ok fee := by
  obtain ⟨factor, hfactor⟩ := corridor.feePercentage.exists_hundredth
  unfold feeFor
  rw [hfactor, ExceptT.run_bind]
  change ∃ fee, (Except.ok (Except.ok factor) >>= _ : Except Crash (Except FxError Money)) = .ok fee
  simp only [ok_bind]
  cases amount.mul? factor with
  | none => exact ⟨_, rfl⟩
  | some fee =>
      simp only
      cases fee.max corridor.feeMinimum <;> exact ⟨_, rfl⟩

theorem exists_quoteAt (corridor : Corridor) (rate : ExchangeRate) (pair : CurrencyPair)
    (amount : Decimal) : ∃ offer, (quoteAt corridor rate pair amount).run = .ok offer := by
  obtain ⟨fee, hfee⟩ := exists_feeFor corridor ⟨amount, pair.source⟩
  unfold quoteAt
  simp only
  rw [ExceptT.run_bind, hfee, ok_bind]
  cases fee with
  | error e => exact ⟨_, rfl⟩
  | ok fee =>
      simp only
      cases (Money.mk amount pair.target).mul? rate.buyRate with
      | none => exact ⟨_, rfl⟩
      | some target =>
          simp only
          rcases (Money.mk amount pair.source).add? fee with e | _ | total <;> exact ⟨_, rfl⟩

theorem feeFor_eq_ok_iff {currency : Currency} {fee : Money} :
    (feeFor c ⟨amount, currency⟩).run = .ok (.ok fee) ↔
      c.feeMinimum.currency = currency ∧ ∃ share, c.share? amount = some share ∧
        fee = ⟨c.feeIn currency share, currency⟩ := by
  obtain ⟨factor, hfactor⟩ := c.feePercentage.exists_hundredth
  unfold feeFor Corridor.share?
  rw [hfactor, ExceptT.run_bind, Option.bind_some]
  change (Except.ok (Except.ok factor) >>= _ : Except Crash (Except FxError Money)) = _ ↔ _
  simp only [ok_bind, Money.mul?]
  cases amount.mul? factor with
  | none =>
      refine ⟨fun h => ?_, ?_⟩
      · cases h
      · rintro ⟨-, share, hshare, -⟩
        cases hshare
  | some share =>
      simp only [Option.map_some, Money.max, Option.some.injEq, exists_eq_left']
      by_cases hcurrency : c.feeMinimum.currency = currency
      · subst hcurrency
        rw [if_pos rfl]
        simp only [true_and]
        rw [Corridor.feeIn, Decimal.max, eq_comm (a := fee)]
        split_ifs <;> exact ⟨fun h => Except.ok.inj (Except.ok.inj h), fun h => by rw [← h]; rfl⟩
      · rw [if_neg (Ne.symm hcurrency)]
        refine ⟨fun h => ?_, fun h => absurd h.1 hcurrency⟩
        cases h

private theorem quoteAt_eq_ok_iff {offer : Uuid → Quote} :
    (quoteAt c shown pair amount).run = .ok (.ok offer) ↔
      ∃ x : Figures, x.Price c shown pair amount ∧ offer = x.quote shown pair amount := by
  obtain ⟨outcome, hfee⟩ := exists_feeFor c ⟨amount, pair.source⟩
  unfold quoteAt
  simp only
  rw [ExceptT.run_bind, hfee, ok_bind]
  cases outcome with
  | error e =>
      refine ⟨fun h => ?_, ?_⟩
      · cases h
      · rintro ⟨x, hx, -⟩
        have htaken := feeFor_eq_ok_iff.mpr ⟨hx.currency_eq, x.share, hx.share_eq, rfl⟩
        rw [hfee] at htaken
        cases htaken
  | ok fee =>
      obtain ⟨hcurrency, share, hshare, rfl⟩ := feeFor_eq_ok_iff.mp hfee
      simp only [Money.mul?, Money.add?, if_true]
      constructor
      · intro h
        cases hgross : amount.mul? shown.buyRate with
        | none =>
            rw [hgross] at h
            cases h
        | some gross =>
            cases htotal : amount.add? (c.feeIn pair.source share) with
            | none =>
                rw [hgross, htotal] at h
                cases h
            | some total =>
                rw [hgross, htotal] at h
                cases h
                exact ⟨⟨share, _, gross, total⟩, ⟨hcurrency, hshare, rfl, hgross, htotal⟩, rfl⟩
      · rintro ⟨⟨share', fee, gross, total⟩, ⟨-, hshare', hfee', hgross, htotal⟩, rfl⟩
        dsimp only at hshare' hfee' hgross htotal
        obtain rfl : share' = share := Option.some.inj (hshare'.symm.trans hshare)
        subst hfee'
        rw [hgross, htotal]
        rfl

theorem corridorFor_eq_ok_iff {d : Desk} :
    d.corridorFor pair amount = .ok c ↔
      Decimal.zero < amount ∧ d.registry.find? pair = some c ∧ c.enabled = true := by
  unfold corridorFor
  split_ifs with hamount
  · refine ⟨fun h => ?_, fun h => absurd hamount (Int.not_le.mpr h.1)⟩
    cases h
  · rw [iff_true_intro (Decimal.lt_of_not_le hamount), true_and]
    cases d.registry.find? pair with
    | none => simp
    | some corridor =>
        rw [Option.some.injEq]
        change (if corridor.enabled = true then _ else _) = _ ↔ _
        split_ifs with henabled
        · constructor
          · intro h
            cases h
            exact ⟨rfl, henabled⟩
          · rintro ⟨rfl, -⟩
            rfl
        · constructor
          · intro h
            cases h
          · rintro ⟨rfl, h⟩
            exact absurd h henabled

end Desk

/-! ### Requests for quotes -/

namespace MarketDesk

variable {σ μ : Type} {H : Program.Handler (Attempt (RunState σ μ))} {d : Desk} {pair : CurrencyPair}
  {amount : Decimal} {f g : RunState σ μ}

theorem exists_withMargin_of_serveBy_rate (hcrash : EndsOnCrash H) {shown : ExchangeRate}
    (h : serveBy H (d.rate pair).run f = (.ok (.ok shown), g)) :
    ∃ rate, d.withMargin rate = .ok shown := by
  rw [serveBy_rate hcrash, andThen_orError_eq_ok_iff] at h
  obtain ⟨rate, k, -, h⟩ := h
  refine ⟨rate, ?_⟩
  cases hmargin : d.withMargin rate with
  | error c =>
      rw [hmargin] at h
      cases h
  | ok shown' =>
      rw [hmargin] at h
      cases h
      rfl

/-- A quote is given where a corridor is found, a rate is shown, the figures can be written down and an
identifier is made. -/
theorem serveBy_quote_eq_ok_iff (hcrash : EndsOnCrash H) {q : Quote} {k : RunState σ μ} :
    serveBy H (d.quote pair amount).run f = (.ok (.ok q), k) ↔
      ∃ c shown g x id, d.corridorFor pair amount = .ok c ∧
        serveBy H (d.rate pair).run f = (.ok (.ok shown), g) ∧
        Figures.Price x c shown pair amount ∧ serveBy H Program.fresh g = (.ok id, k) ∧
        q = x.quote shown pair amount id := by
  rw [serveBy_quote hcrash]
  cases hcorridor : d.corridorFor pair amount with
  | error e =>
      constructor
      · intro h
        cases h
      · rintro ⟨c, shown, g, x, id, h, -⟩
        cases h
  | ok c =>
      simp only
      rw [andThen_orError_eq_ok_iff]
      constructor
      · rintro ⟨shown, g, hrate, h⟩
        obtain ⟨offer, g', hoffer, hmint⟩ := andThen_orError_eq_ok_iff.mp h
        obtain ⟨id, k', hid, hquote⟩ := andThen_eq_ok_iff.mp hmint
        obtain ⟨hquoteAt, rfl⟩ := Prod.mk.inj hoffer
        obtain ⟨x, hx, rfl⟩ := Desk.quoteAt_eq_ok_iff.mp hquoteAt
        cases hquote
        exact ⟨c, shown, g, x, id, rfl, hrate, hx, hid, rfl⟩
      · rintro ⟨c', shown, g, x, id, hc', hrate, hx, hid, rfl⟩
        obtain rfl : c = c' := Except.ok.inj hc'
        refine ⟨shown, g, hrate, ?_⟩
        rw [Desk.quoteAt_eq_ok_iff.mpr ⟨x, hx, rfl⟩, andThen_ok, orError_ok, hid]
        rfl

end MarketDesk

end Bureau
