import Bureau.Proofs.Corridor.Acceptance
import Bureau.Proofs.Desk.Quotes
import Bureau.Proofs.Remote.Trouble

/-!
The currencies of quotes. In an accepted table the least fee of a corridor is in the currency of its
source, so the sums of a quote never meet two currencies: whatever the store does, a quote is never
refused for a mismatch of currencies, unless the market itself answers with one, and its amounts are in
the currencies of the pair.
-/

set_option autoImplicit false

namespace Bureau

open Attempt

/-- A quote whose amounts are in the currencies of a pair. -/
structure Quote.IsIn (q : Quote) (pair : CurrencyPair) : Prop where
  source_eq : q.sourceCurrency = pair.source
  target_eq : q.targetCurrency = pair.target
  sourceAmount_currency : q.sourceAmount.currency = pair.source
  fee_currency : q.fee.currency = pair.source
  totalCost_currency : q.totalCost.currency = pair.source
  targetAmount_currency : q.targetAmount.currency = pair.target

private theorem Figures.isIn_quote (x : Figures) (shown : ExchangeRate) (pair : CurrencyPair)
    (amount : Decimal) (id : Uuid) : (x.quote shown pair amount id).IsIn pair :=
  ⟨rfl, rfl, rfl, rfl, rfl, rfl⟩

namespace Desk

variable {c : Corridor} {shown : ExchangeRate} {pair : CurrencyPair} {amount : Decimal} {e : FxError}

/-! ### Errors of a calculation -/

/-- What is said of an amount whose figures cannot be written down. -/
def tooLarge (amount : Decimal) : FxError :=
  .invalidAmount s!"source amount {amount} is too large to price"

private theorem eq_tooLarge_of_feeFor (hcurrency : c.feeMinimum.currency = pair.source)
    (h : (feeFor c ⟨amount, pair.source⟩).run = .ok (.error e)) : e = tooLarge amount := by
  obtain ⟨factor, hfactor⟩ := c.feePercentage.exists_hundredth
  unfold feeFor at h
  rw [hfactor, ExceptT.run_bind] at h
  change (Except.ok (Except.ok factor) >>= _ : Except Crash (Except FxError Money)) = _ at h
  simp only [ok_bind, Money.mul?] at h
  cases hshare : amount.mul? factor with
  | none =>
      rw [hshare] at h
      cases h
      rfl
  | some share =>
      simp only [hshare, Option.map_some, Money.max, if_pos hcurrency.symm] at h
      cases h

private theorem eq_tooLarge_of_quoteAt (hcurrency : c.feeMinimum.currency = pair.source)
    (h : (quoteAt c shown pair amount).run = .ok (.error e)) : e = tooLarge amount := by
  obtain ⟨outcome, hfee⟩ := exists_feeFor c ⟨amount, pair.source⟩
  unfold quoteAt at h
  simp only at h
  rw [ExceptT.run_bind, hfee, ok_bind] at h
  cases outcome with
  | error e' =>
      cases h
      exact eq_tooLarge_of_feeFor hcurrency hfee
  | ok fee =>
      obtain ⟨-, share, -, rfl⟩ := feeFor_eq_ok_iff.mp hfee
      simp only [Money.mul?, Money.add?, if_true] at h
      cases hgross : amount.mul? shown.buyRate with
      | none =>
          rw [hgross] at h
          cases h
          rfl
      | some gross =>
          cases htotal : amount.add? (c.feeIn pair.source share) with
          | none =>
              rw [hgross, htotal] at h
              cases h
              rfl
          | some total =>
              rw [hgross, htotal] at h
              cases h

/-- What an amount can be refused for before it is priced. -/
inductive Refuses (pair : CurrencyPair) (amount : Decimal) : FxError → Prop
  | notPositive : Refuses pair amount
      (.invalidAmount s!"source amount must be positive, got {amount}")
  | notFound : Refuses pair amount (.corridorNotFound pair)
  | disabled : Refuses pair amount (.corridorDisabled pair)
  | tooLarge : Refuses pair amount (tooLarge amount)

private theorem refuses_of_corridorFor {d : Desk} (h : d.corridorFor pair amount = .error e) :
    Refuses pair amount e := by
  unfold corridorFor at h
  split_ifs at h
  · cases h
    exact .notPositive
  · cases hfind : d.registry.find? pair with
    | none =>
        rw [hfind] at h
        cases h
        exact .notFound
    | some corridor =>
        rw [hfind] at h
        simp only at h
        split_ifs at h
        cases h
        exact .disabled

private theorem Refuses.ne_mismatch (h : Refuses pair amount e) (m : CurrencyMismatch) :
    e ≠ .currencyMismatch m := by
  cases h <;> exact nofun

private theorem minimum_currency_of_corridorFor {d : Desk} {corridors : List Corridor}
    (htable : Registry.ofList corridors = .ok d.registry) (h : d.corridorFor pair amount = .ok c) :
    c.feeMinimum.currency = pair.source := by
  obtain ⟨-, hfind, -⟩ := corridorFor_eq_ok_iff.mp h
  have hvalid := Corridor.isValid_of_validate
    (Registry.isValid_ofList htable c (Registry.mem_of_find? hfind))
  rw [hvalid.minimum_currency, ← (Registry.isIndexed_ofList htable).pair_of_find? hfind]
  rfl

end Desk

/-! ### Requests -/

namespace RemoteDesk

open MarketDesk

variable {σ μ κ : Type} {o : RemoteDesk σ μ κ} {pair : CurrencyPair} {amount : Decimal} {e : FxError}
  {f g : RunState (Far σ) μ}

private theorem exists_price_of_serve_rate_error
    (h : o.serve (o.marketDesk.desk.rate pair).run f = (.ok (.error e), g)) :
    ∃ now, ((o.marketDesk.market.price pair now).runOn f.market).1 = .ok (.error e) := by
  cases hseen : o.seen? pair f with
  | some rate =>
      rw [serve_rate, serve_marketRate, hseen] at h
      simp only [andThen_ok, orError_ok] at h
      cases hmargin : o.marketDesk.desk.withMargin rate with
      | error c =>
          rw [hmargin] at h
          cases h
      | ok shown =>
          rw [hmargin] at h
          cases h
  | none =>
      refine ⟨o.now (o.look pair f).2, ?_⟩
      rcases hprice : (o.marketDesk.market.price pair (o.now (o.look pair f).2)).runOn f.market with
        ⟨c | e' | rate, market⟩
      · obtain ⟨k, hcrash, -⟩ := o.serve_rate_of_crash hseen hprice
        rw [hcrash] at h
        cases h
      · obtain ⟨k, herror, -⟩ := o.serve_rate_of_error hseen hprice
        rw [herror] at h
        cases h
        rfl
      · obtain ⟨k, hask, -⟩ := o.ask_look hprice
        rw [serve_rate, serve_marketRate, hseen] at h
        simp only [buy, hask, andThen_ok, orError_ok] at h
        cases hmargin : o.marketDesk.desk.withMargin rate with
        | error c =>
            rw [hmargin] at h
            cases h
        | ok shown =>
            rw [hmargin] at h
            cases h

/-- A quote over an accepted table is refused for what is wrong with the amount or the corridor, or with
an error of the market. -/
theorem refuses_or_price_of_serve_quote {corridors : List Corridor}
    (htable : Registry.ofList corridors = .ok o.marketDesk.desk.registry)
    (h : o.serve (o.marketDesk.desk.quote pair amount).run f = (.ok (.error e), g)) :
    Desk.Refuses pair amount e ∨
      ∃ now, ((o.marketDesk.market.price pair now).runOn f.market).1 = .ok (.error e) := by
  have hserve := serveBy_quote o.endsOnCrash_handler o.marketDesk.desk pair amount f
  change o.serve _ f = _ at hserve
  rw [h] at hserve
  cases hcorridor : o.marketDesk.desk.corridorFor pair amount with
  | error e' =>
      rw [hcorridor] at hserve
      cases hserve
      exact .inl (Desk.refuses_of_corridorFor hcorridor)
  | ok c =>
      have hcurrency := Desk.minimum_currency_of_corridorFor htable hcorridor
      rw [hcorridor] at hserve
      change _ = andThen (o.serve (o.marketDesk.desk.rate pair).run f) _ at hserve
      rcases hrate : o.serve (o.marketDesk.desk.rate pair).run f with ⟨crash | e' | shown, k⟩
      · rw [hrate] at hserve
        cases hserve
      · rw [hrate] at hserve
        cases hserve
        exact .inr (exists_price_of_serve_rate_error hrate)
      · obtain ⟨offer, hoffer⟩ := Desk.exists_quoteAt c shown pair amount
        rw [hrate, andThen_ok, orError_ok, hoffer, andThen_ok] at hserve
        cases offer with
        | error e' =>
            cases hserve
            rw [Desk.eq_tooLarge_of_quoteAt hcurrency hoffer]
            exact .inl .tooLarge
        | ok offer =>
            obtain ⟨id, k', hmint⟩ := o.mints_handler k
            rw [orError_ok, hmint] at hserve
            cases hserve

private theorem isIn_of_serve_quote {q : Quote}
    (h : o.serve (o.marketDesk.desk.quote pair amount).run f = (.ok (.ok q), g)) : q.IsIn pair := by
  obtain ⟨c, shown, k, x, id, -, -, -, -, rfl⟩ :=
    (serveBy_quote_eq_ok_iff o.endsOnCrash_handler).mp h
  exact x.isIn_quote shown pair amount id

end RemoteDesk

/-! ### Tables -/

namespace Registry

/-- A list of corridors is accepted exactly if every one is valid and no two have the same pair; else
the error is that of the first that cannot stand after those before it. In an accepted table the list
is the one given, from one source as its part, and a pair finds a corridor exactly if that is the only
one of the list with the pair. So a quote is never refused for a mismatch of currencies, whatever the
store does, unless the market answers with one, which no provider does; and its amounts are in the
currencies of the pair. -/
theorem index_agrees_with_list (corridors : List Corridor) :
    ((∃ r, ofList corridors = .ok r) ↔
      (∀ c ∈ corridors, c.IsValid) ∧ (corridors.map Corridor.pair).Nodup) ∧
    (∀ e, ofList corridors = .error e ↔ FirstFault corridors e) ∧
    ∀ r, ofList corridors = .ok r →
      r.list none = corridors ∧
      (∀ source, r.list (some source) = corridors.filter fun c => c.sourceCurrency = source) ∧
      (∀ pair c, r.find? pair = some c ↔ ((r.list none).filter fun d => d.pair = pair) = [c]) ∧
      (∀ (σ μ κ : Type) (o : RemoteDesk σ μ κ) (f : RunState (Far σ) μ) pair amount outcome g,
        o.marketDesk.desk.registry = r →
        o.serve (o.marketDesk.desk.quote pair amount).run f = (.ok outcome, g) →
          (∀ q, outcome = .ok q → q.IsIn pair) ∧
          ∀ m, outcome = .error (.currencyMismatch m) → ∃ now,
            ((o.marketDesk.market.price pair now).runOn f.market).1 =
              .ok (.error (.currencyMismatch m))) ∧
      ∀ (σ : Type) (policy : Policy) (remote : Remote σ) (reading : Nat → Instant)
        (f : RunState (Far σ) Provider) pair amount m,
        ((RemoteDesk.ofProvider ⟨r, policy⟩ remote reading).serve
          (Desk.quote ⟨r, policy⟩ pair amount).run f).1 ≠ .ok (.error (.currencyMismatch m)) := by
  refine ⟨exists_ofList_iff.trans ⟨fun h => ⟨h.1, h.2⟩, fun h => ⟨h.1, h.2⟩⟩,
    fun e => ofList_eq_error_iff, fun r hr => ?_⟩
  have hcorridors : r.list none = corridors := corridors_ofList hr
  have hmarket : ∀ {σ μ κ : Type} {o : RemoteDesk σ μ κ} {f g : RunState (Far σ) μ} {pair amount m},
      o.marketDesk.desk.registry = r →
      o.serve (o.marketDesk.desk.quote pair amount).run f = (.ok (.error (.currencyMismatch m)), g) →
        ∃ now, ((o.marketDesk.market.price pair now).runOn f.market).1 =
          .ok (.error (.currencyMismatch m)) := by
    intro σ μ κ o f g pair amount m hdesk hserve
    rw [← hdesk] at hr
    exact (RemoteDesk.refuses_or_price_of_serve_quote hr hserve).resolve_left
      fun hrefuses => hrefuses.ne_mismatch m rfl
  refine ⟨hcorridors, fun source => ?_, fun pair c => ?_, ?_, ?_⟩
  · rw [← hcorridors, list, list]
    exact List.filter_congr fun c _ => (beq_eq_decide _ _)
  · rw [hcorridors]
    exact find?_eq_some_iff_filter hr
  · intro σ μ κ o f pair amount outcome g hdesk hserve
    refine ⟨?_, ?_⟩
    · rintro q rfl
      exact RemoteDesk.isIn_of_serve_quote hserve
    · rintro m rfl
      exact hmarket hdesk hserve
  · intro σ policy remote reading f pair amount m hserve
    let o := RemoteDesk.ofProvider ⟨r, policy⟩ remote reading
    obtain ⟨now, hprice⟩ := hmarket (o := o) rfl (Prod.ext hserve rfl)
    have hunsupported := Provider.runOn_price_error hprice
    cases hunsupported

/-- The table of a corridor of euros for dollars: with a market at par and a store that answers late, or
with a torn text, a thousand euros are quoted in euros and dollars. -/
theorem index_agrees_with_list_euro :
    let c := Corridor.euroDollar .one
    let desk := Desk.euroDollar .one
    ofList [c] = .ok desk.registry ∧ desk.registry.find? .euroDollar = some c ∧
      ∃ q g, (RemoteDesk.ofProvider desk RemoteDesk.torn fun _ => .epoch).serve
          (desk.quote .euroDollar ⟨false, 1000, 0, by decide, by decide⟩).run
          (RunState.opening ⟨0, ()⟩ (.scripted MarketDesk.euroDollarMarket)) = (.ok (.ok q), g) ∧
        q.IsIn .euroDollar := by
  intro c desk
  have htable : ofList [c] = .ok desk.registry := rfl
  obtain ⟨-, -, htables⟩ := index_agrees_with_list [c]
  obtain ⟨-, -, hfind, hquotes, -⟩ := htables desk.registry htable
  let o := RemoteDesk.ofProvider desk RemoteDesk.torn fun _ => .epoch
  let f : RunState (Far Unit) Provider :=
    RunState.opening ⟨0, ()⟩ (.scripted MarketDesk.euroDollarMarket)
  have hunseen : o.seen? .euroDollar f = none := by decide +kernel
  have hexpiry : Instant.epoch.add? ScriptedMarket.validity = some ⟨30000000000, by decide⟩ := by
    decide
  obtain ⟨shown, g, hshown, hrate, -⟩ := RemoteDesk.serve_rate_of_price (o := o)
    (Desk.isValid_euroDollar .one) hunseen
    (MarketDesk.runOn_price_atPar Std.HashMap.getElem?_insert_self hexpiry)
  obtain rfl : ExchangeRate.euroDollar = shown :=
    Except.ok.inj ((Desk.withMargin_euroDollar .one).symm.trans hshown)
  have hminimum : Decimal.one ≤ ⟨false, 5000, 3, by decide, by decide⟩ := by decide
  obtain ⟨x, -, hx⟩ := Figures.exists_price_thousand hminimum
  have hserve := (MarketDesk.serveBy_quote_eq_ok_iff o.endsOnCrash_handler).mpr
    ⟨_, _, g, x, _, Desk.corridorFor_euroDollar .one (by decide), hrate, hx, rfl, rfl⟩
  exact ⟨htable, (hfind _ _).mpr rfl, _, _, hserve,
    (hquotes Unit Provider Provider.Order o f _ _ _ _ rfl hserve).1 _ rfl⟩

end Registry

end Bureau
