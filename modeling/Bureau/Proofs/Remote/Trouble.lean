import Bureau.Proofs.Desk.Standard
import Bureau.Proofs.Remote.Pricing

/-!
Store trouble at a desk that deals with a provider. Whatever the store does, a pair is priced if the
provider prices it: a rate that cannot be read back in time is asked for once, and no trouble with
the store ever shows.
-/

set_option autoImplicit false

namespace Bureau.RemoteDesk

open Attempt MarketDesk

variable {σ : Type}

def ofProvider (d : Desk) (remote : Remote σ) (reading : Nat → Instant) :
    RemoteDesk σ Provider Provider.Order := ⟨MarketDesk.ofProvider d, remote, reading⟩

variable (o : RemoteDesk σ Provider Provider.Order) (pairs : List CurrencyPair)
  (f g : RunState (Far σ) Provider)

/-- What a batch shows, where `new` are the rates that the provider made and `pick` gives the rate of
each pair that is not left out. A rate that was read back in time and valid is shown, and of any other
pair a new one; only a pair that the provider does not deal in is left out. -/
structure Shows (new : List Rate) (shown : List ExchangeRate) (pick : CurrencyPair → Option Rate) :
    Prop where
  rates_eq : shown.map (·.rate) = pairs.filterMap pick
  margins : ∀ r ∈ shown, o.marketDesk.desk.withMargin r.rate = .ok r
  kept : ∀ pair rate, (pair, some rate) ∈ (o.lookEach pairs.eraseDups f).1 → pick pair = some rate
  bought : ∀ pair rate, (pair, none) ∈ (o.lookEach pairs.eraseDups f).1 → pick pair = some rate →
    rate ∈ new ∧ rate.pair = pair
  dropped : ∀ pair, (pair, none) ∈ (o.lookEach pairs.eraseDups f).1 → pick pair = none →
    ∀ now, ((Provider.price pair (.ok now)).runOn f.market).1 = .ok (.error (.unsupportedPair pair))

/-- How a batch ends on what the provider made of the pairs that were not read back: with the rates and
the margin taken off each, or in the crash of the provider. -/
def EndsBatchOn (outcome : Except Crash (List ExchangeRate)) : Except Crash (List Rate) → Prop
  | .ok new => g.ledger = .askedAll (o.missing pairs f) new :: f.ledger ∧
      ∃ shown pick, outcome = .ok shown ∧ o.Shows pairs f new shown pick
  | .error c => g.ledger = f.ledger ∧ outcome = .error c

/-- How a request for a rate ends on a reply of the provider: with the margin taken off the rate, with
the one error that a provider knows, or in its crash. -/
def EndsOn (pair : CurrencyPair) (outcome : Except Crash (Except FxError ExchangeRate)) :
    Except Crash (Except FxError Rate) → Prop
  | .ok (.ok rate) => g.ledger = .asked pair (.ok rate) :: f.ledger ∧
      ∃ shown, o.marketDesk.desk.withMargin rate = .ok shown ∧ outcome = .ok (.ok shown)
  | .ok (.error e) => g.ledger = .asked pair (.error e) :: f.ledger ∧
      e = .unsupportedPair pair ∧ outcome = .ok (.error e)
  | .error c => g.ledger = f.ledger ∧ outcome = .error c

variable {o pairs f g}

private theorem exists_shows (hvalid : o.marketDesk.desk.IsValid) (new : List Rate)
    (hsub : (new.map (·.pair)).Sublist (o.missing pairs f))
    (hall : ∀ pair ∈ o.missing pairs f, f.market.supports pair = true → pair ∈ new.map (·.pair)) :
    ∃ shown, (pairs.filterMap (Desk.pick? new (o.lookEach pairs.eraseDups f).1)).mapM
        o.marketDesk.desk.withMargin = .ok shown ∧
      o.Shows pairs f new shown (Desk.pick? new (o.lookEach pairs.eraseDups f).1) := by
  obtain ⟨shown, hshown⟩ := hvalid.exists_mapM_withMargin
    (pairs.filterMap (Desk.pick? new (o.lookEach pairs.eraseDups f).1))
  obtain ⟨hrates, hmargins⟩ := Desk.rates_of_withMargin hshown
  have hnodup := o.nodup_lookEach pairs f
  refine ⟨shown, hshown, hrates, hmargins, ?_, ?_, ?_⟩
  · intro pair rate hknown
    refine Desk.pick?_of_known hnodup hknown fun hnew => ?_
    have hunknown := Desk.find?_of_mem hnodup (o.mem_missing.mp (hsub.subset hnew))
    cases hunknown.symm.trans (Desk.find?_of_mem hnodup hknown)
  · intro pair rate hunknown hpick
    rw [Desk.pick?_of_unknown hnodup hunknown] at hpick
    have hpair : (rate.pair == pair) = true :=
      List.find?_some (p := fun r : Rate => r.pair == pair) hpick
    exact ⟨List.mem_reverse.mp (List.mem_of_find?_eq_some hpick), eq_of_beq hpair⟩
  · intro pair hunknown hpick now
    rw [Desk.pick?_of_unknown hnodup hunknown] at hpick
    refine Provider.runOn_price_of_not_supports (Bool.eq_false_iff.mpr fun hpriced => ?_) now
    obtain ⟨rate, hrate, hpair⟩ := List.mem_map.mp (hall pair (o.mem_missing.mpr hunknown) hpriced)
    exact List.find?_eq_none.mp hpick rate (List.mem_reverse.mpr hrate) (beq_iff_eq.mpr hpair)

/-- A batch whose rates are all read back in time and valid needs no provider. -/
theorem serve_rates_of_seen (hvalid : o.marketDesk.desk.IsValid) (hnone : o.missing pairs f = []) :
    ∃ shown pick g, o.serve (o.marketDesk.desk.rates pairs) f = (.ok shown, g) ∧ g.market = f.market ∧
      g.ledger = f.ledger ∧ o.Shows pairs f [] shown pick := by
  have hlook := o.waits_lookEach pairs.eraseDups f
  obtain ⟨shown, hshown, hshows⟩ := exists_shows hvalid [] (List.nil_sublist _)
    (fun pair hpair _ => absurd (hnone ▸ hpair) List.not_mem_nil)
  refine ⟨shown, _, _, ?_, hlook.market_eq, hlook.ledger_eq, hshows⟩
  rw [serve_rates, hnone, buyEach_nil, andThen_ok, hshown]

/-- A batch of which some pairs are missing asks the provider once, about those pairs, when the store
has been asked about all of them. -/
theorem serve_rates_of_unseen (hmarket : o.marketDesk.market = Provider.market)
    (hvalid : o.marketDesk.desk.IsValid) (hsome : o.missing pairs f ≠ [])
    {reply : Except Crash (List Rate)} {market : Provider}
    (hprice : (Provider.priceAll (o.missing pairs f)
      (.ok (o.now (o.lookEach pairs.eraseDups f).2))).runOn f.market = (reply, market)) :
    ∃ outcome g, o.serve (o.marketDesk.desk.rates pairs) f = (outcome, g) ∧ g.market = market ∧
      o.EndsBatchOn pairs f g outcome reply := by
  have hlook := o.waits_lookEach pairs.eraseDups f
  have hprices : (o.marketDesk.market.priceAll (o.missing pairs f)
      (o.now (o.lookEach pairs.eraseDups f).2)).runOn (o.lookEach pairs.eraseDups f).2.market =
        (reply, market) := by
    rw [hmarket, hlook.market_eq]
    exact hprice
  rcases reply with c | new
  · refine ⟨.error c, { (o.lookEach pairs.eraseDups f).2 with market }, ?_, rfl, hlook.ledger_eq, rfl⟩
    rw [serve_rates, o.buyEach_of_crash hsome hprices, andThen_error]
  · obtain ⟨hsub, -, hall⟩ := (Provider.stamps_market f.market.validity).priceAll_rates _ _ f.market
      new rfl (congrArg Prod.fst hprice)
    obtain ⟨shown, hshown, hshows⟩ := exists_shows hvalid new hsub hall
    obtain ⟨g, hbuy, hg, hledger⟩ := o.buyEach_of_ok hsome hprices
    rw [hlook.ledger_eq] at hledger
    refine ⟨.ok shown, g, ?_, hg, hledger, shown, _, rfl, hshows⟩
    rw [serve_rates, hbuy, andThen_ok, hshown]

private theorem serve_rate_of_unseen (hmarket : o.marketDesk.market = Provider.market)
    (hvalid : o.marketDesk.desk.IsValid) {pair : CurrencyPair} (hunseen : o.seen? pair f = none)
    {reply : Except Crash (Except FxError Rate)} {market : Provider}
    (hprice : (Provider.price pair (.ok (o.now (o.look pair f).2))).runOn f.market =
      (reply, market)) :
    ∃ outcome g, o.serve (o.marketDesk.desk.rate pair).run f = (outcome, g) ∧ g.market = market ∧
      o.EndsOn f g pair outcome reply := by
  have hprices : (o.marketDesk.market.price pair (o.now (o.look pair f).2)).runOn f.market =
      (reply, market) := by
    rw [hmarket]
    exact hprice
  rcases reply with c | e | rate
  · obtain ⟨g, hserve, hg, hledger⟩ := o.serve_rate_of_crash hunseen hprices
    exact ⟨_, g, hserve, hg, hledger, rfl⟩
  · obtain ⟨g, hserve, hg, hledger⟩ := o.serve_rate_of_error hunseen hprices
    have hreply : ((Provider.price pair (.ok (o.now (o.look pair f).2))).runOn f.market).1 =
        .ok (.error e) := by rw [hprice]
    exact ⟨_, g, hserve, hg, hledger, Provider.runOn_price_error hreply, rfl⟩
  · obtain ⟨shown, g, hshown, hserve, hg, hledger⟩ := serve_rate_of_price hvalid hunseen hprices
    exact ⟨_, g, hserve, hg, hledger, shown, hshown, rfl⟩

/-- The only error of a request for a rate is that the provider does not deal in the pair. -/
theorem eq_unsupportedPair_of_serve_rate (hmarket : o.marketDesk.market = Provider.market)
    (hvalid : o.marketDesk.desk.IsValid) {pair : CurrencyPair} {e : FxError}
    (hserve : o.serve (o.marketDesk.desk.rate pair).run f = (.ok (.error e), g)) :
    e = .unsupportedPair pair := by
  cases hlooked : o.seen? pair f with
  | some rate =>
      obtain ⟨shown, -, hshown⟩ := serve_rate_of_seen hvalid hlooked
      rw [hserve] at hshown
      cases hshown
  | none =>
      rcases hprice : (Provider.price pair (.ok (o.now (o.look pair f).2))).runOn f.market with
        ⟨reply, market⟩
      obtain ⟨outcome, k, hserve', -, hends⟩ := serve_rate_of_unseen hmarket hvalid hlooked hprice
      rw [hserve] at hserve'
      cases hserve'
      rcases reply with c | e' | rate
      · cases hends.2
      · obtain ⟨-, rfl, heq⟩ := hends
        cases heq
        rfl
      · obtain ⟨-, shown, -, heq⟩ := hends
        cases heq

/-- Store trouble never stops pricing. A rate is shown from a document that was read in time and is
still valid, without a word to the provider, or else as the provider makes it when it is asked, once;
there is no error but that the provider does not deal in the pair. So it is in a batch, where the
provider is asked once about all that was not read back: no other pair is left out, and only the
provider can bring it down. -/
theorem priced_despite_store {d : Desk} (hvalid : d.IsValid) (remote : Remote σ)
    (reading : Nat → Instant) (f : RunState (Far σ) Provider) :
    let o := ofProvider d remote reading
    (∀ pair rate, o.seen? pair f = some rate →
      ∃ shown g, o.serve (d.rate pair).run f = (.ok (.ok shown), g) ∧
        d.withMargin rate = .ok shown ∧ g.market = f.market ∧ g.ledger = f.ledger) ∧
    (∀ pair reply market, o.seen? pair f = none →
      (Provider.price pair (.ok (o.now (o.look pair f).2))).runOn f.market = (reply, market) →
        ∃ outcome g, o.serve (d.rate pair).run f = (outcome, g) ∧ g.market = market ∧
          o.EndsOn f g pair outcome reply) ∧
    (∀ pair e g, o.serve (d.rate pair).run f = (.ok (.error e), g) → e = .unsupportedPair pair) ∧
    (∀ pairs, o.missing pairs f = [] →
      ∃ shown pick g, o.serve (d.rates pairs) f = (.ok shown, g) ∧ g.market = f.market ∧
        g.ledger = f.ledger ∧ o.Shows pairs f [] shown pick) ∧
    ∀ pairs reply market, o.missing pairs f ≠ [] →
      (Provider.priceAll (o.missing pairs f)
          (.ok (o.now (o.lookEach pairs.eraseDups f).2))).runOn f.market = (reply, market) →
        ∃ outcome g, o.serve (d.rates pairs) f = (outcome, g) ∧ g.market = market ∧
          o.EndsBatchOn pairs f g outcome reply := by
  intro o
  refine ⟨?_, ?_, ?_, ?_, ?_⟩
  · intro pair rate hseen
    obtain ⟨shown, hshown, hserve⟩ := serve_rate_of_seen (o := o) hvalid hseen
    have hlook := o.waits_look pair f
    exact ⟨shown, _, hserve, hshown, hlook.market_eq, hlook.ledger_eq⟩
  · intro pair reply market hunseen hprice
    exact serve_rate_of_unseen (o := o) rfl hvalid hunseen hprice
  · intro pair e g hserve
    exact eq_unsupportedPair_of_serve_rate (o := o) rfl hvalid hserve
  · intro pairs hnone
    exact serve_rates_of_seen (o := o) hvalid hnone
  · intro pairs reply market hsome hprice
    exact serve_rates_of_unseen (o := o) rfl hvalid hsome hprice

/-- A store that answers a reading late, or with a torn text, and never confirms a writing. -/
def torn : Remote Unit where
  respond _ _ _ c := match c with
    | .get key => (if key = Records.rateKey ⟨⟨"EUR"⟩, ⟨"USD"⟩⟩ then some (5, .ok (some "\x7b"))
        else some (900, .ok none), ())
    | _ => (none, ())

/-- With such a store the standard desk prices a pair that is set at par, by itself and twice in a
batch. -/
theorem priced_despite_store_torn :
    let pair : CurrencyPair := ⟨⟨"EUR"⟩, ⟨"USD"⟩⟩
    let m : ScriptedMarket := (ScriptedMarket.empty "mock").setRate pair .one .zero
    let reading : Nat → Instant := fun _ => ⟨0, by decide⟩
    let rate := Rate.atPar pair "mock" ⟨0, by decide⟩ ⟨30000000000, by decide⟩
    let o := ofProvider .standard torn reading
    let f : RunState (Far Unit) Provider := RunState.opening ⟨0, ()⟩ (.scripted m)
    (∃ shown g, o.serve (Desk.standard.rate pair).run f = (.ok (.ok shown), g) ∧
      Desk.standard.withMargin rate = .ok shown ∧ g.ledger = [.asked pair (.ok rate)]) ∧
    ∃ shown g, o.serve (Desk.standard.rates [pair, pair]) f = (.ok shown, g) ∧
      shown.map (·.rate) = [rate, rate] ∧ g.ledger = [.askedAll [pair] [rate]] := by
  intro pair m reading rate o f
  have hunseen : o.seen? pair f = none := by decide +kernel
  have hset : m.rates[pair]? = some (Decimal.one, Decimal.zero) :=
    Std.HashMap.getElem?_insert_self
  have hexpiry : (⟨0, by decide⟩ : Instant).add? ScriptedMarket.validity =
      some ⟨30000000000, by decide⟩ := by decide
  have hprice := runOn_price_atPar hset hexpiry
  have hprices := runOn_priceAll_atPar hset hexpiry
  obtain ⟨-, hasked, -, -, hbatch⟩ := priced_despite_store Desk.isValid_standard torn reading f
  constructor
  · obtain ⟨outcome, g, hserve, -, hledger, shown, hshown, rfl⟩ := hasked pair _ _ hunseen hprice
    exact ⟨shown, g, hserve, hshown, hledger⟩
  · have hlooked : (o.lookEach [pair, pair].eraseDups f).1 = [(pair, none)] :=
      congrArg (fun seen => [(pair, seen)]) hunseen
    have hmissing : o.missing [pair, pair] f = [pair] := by
      rw [missing, hlooked]
      rfl
    have hsome : o.missing [pair, pair] f ≠ [] := by
      rw [hmissing]
      exact List.cons_ne_nil _ _
    have hasks : (Provider.priceAll (o.missing [pair, pair] f)
        (.ok (o.now (o.lookEach [pair, pair].eraseDups f).2))).runOn f.market =
          (.ok [rate], .scripted { m with calls := m.calls + 1, batchCalls := m.batchCalls + 1 }) := by
      rw [hmissing]
      exact hprices
    obtain ⟨outcome, g, hserve, -, hledger, shown, pick, rfl, hshows⟩ := hbatch _ _ _ hsome hasks
    have hunknown : (pair, none) ∈ (o.lookEach [pair, pair].eraseDups f).1 := by
      rw [hlooked]
      exact List.mem_singleton.mpr rfl
    have hpick : pick pair = some rate := by
      cases hpick : pick pair with
      | none =>
          have hdropped := hshows.dropped pair hunknown hpick ⟨0, by decide⟩
          cases (congrArg Prod.fst hprice).symm.trans hdropped
      | some r =>
          have hnew := (hshows.bought pair r hunknown hpick).1
          rw [List.mem_singleton.mp hnew]
    rw [hmissing] at hledger
    refine ⟨shown, g, hserve, ?_, hledger⟩
    rw [hshows.rates_eq, List.filterMap_cons_some hpick, List.filterMap_cons_some hpick]
    rfl

end Bureau.RemoteDesk
