import Bureau.Proofs.Desk.Pricing
import Bureau.Proofs.Desk.Quotes
import Bureau.Proofs.Serving.Locks
import Bureau.Proofs.Provider.Market

/-!
The standard desk with a scripted market, where a pair is set at par: each unit of the source for
one of the target, without a spread. With room in the store such a pair is priced and locked. A desk
with a corridor from euro to dollars quotes amounts at par.
-/

set_option autoImplicit false

namespace Bureau

open Attempt

def Desk.standard : Desk := ⟨Registry.empty, Policy.standard⟩

/-- A desk that deals with a provider, by a clock that starts in 1970. -/
def MarketDesk.ofProvider (d : Desk) : MarketDesk Provider Provider.Order :=
  ⟨d, Provider.market, Uuid.numbered, 0⟩

def Rate.atPar (pair : CurrencyPair) (source : String) (made last : Instant) : Rate :=
  ⟨pair, Decimal.one, Decimal.one, Decimal.one, Decimal.zero, source, made, last⟩

theorem Rate.stamped_atPar (pair : CurrencyPair) (source : String) {made last : Instant}
    {validFor : Duration} (hlast : made.add? validFor = some last) :
    (atPar pair source made last).Stamped made validFor :=
  ⟨rfl, last, hlast, rfl⟩

private theorem Rate.make_atPar (pair : CurrencyPair) {validFor : Duration} (source : String)
    {now last : Instant} (hlast : now.add? validFor = some last) :
    make pair Decimal.one Decimal.zero validFor source now = .ok (atPar pair source now last) := by
  have hhalf : Decimal.zero.div? Decimal.twoHundred = some Decimal.zero := by decide +kernel
  have hbid : (Decimal.one.sub? Decimal.zero).bind Decimal.one.mul? = some Decimal.one := by
    decide +kernel
  have hask : (Decimal.one.add? Decimal.zero).bind Decimal.one.mul? = some Decimal.one := by
    decide +kernel
  unfold make
  simp only [Crash.unless, hhalf, ok_bind, hbid, hask, hlast]
  rfl

theorem Desk.isValid_standard : standard.IsValid := ⟨by decide +kernel, [], rfl⟩

/-! ### A corridor -/

def CurrencyPair.euroDollar : CurrencyPair := ⟨⟨"EUR"⟩, ⟨"USD"⟩⟩

/-- A corridor for them: a fee of half a percent, but a least fee, and a margin of three tenths. -/
def Corridor.euroDollar (minimum : Decimal) : Corridor where
  sourceCurrency := CurrencyPair.euroDollar.source
  targetCurrency := CurrencyPair.euroDollar.target
  enabled := true
  feePercentage := Decimal.half
  feeMinimum := ⟨minimum, CurrencyPair.euroDollar.source⟩
  marginPercentage := Decimal.threeTenths
  allowedPayoutMethods := TextSet.empty

def Desk.euroDollar (minimum : Decimal) : Desk :=
  ⟨⟨[.euroDollar minimum], [(.euroDollar, 0)]⟩, Policy.standard⟩

theorem Desk.isValid_euroDollar (minimum : Decimal) : (euroDollar minimum).IsValid :=
  ⟨isValid_standard.policy, [.euroDollar minimum], rfl⟩

theorem Desk.corridorFor_euroDollar (minimum : Decimal) {amount : Decimal}
    (hamount : Decimal.zero < amount) :
    (euroDollar minimum).corridorFor .euroDollar amount = .ok (.euroDollar minimum) :=
  corridorFor_eq_ok_iff.mpr ⟨hamount, rfl, rfl⟩

private theorem Instant.inCalendar_zero : calendarStart ≤ 0 ∧ 0 ≤ calendarEnd := by decide

def Instant.epoch : Instant := ⟨0, inCalendar_zero⟩

def Rate.euroDollar : Rate := .atPar .euroDollar "par" .epoch ⟨30000000000, by decide⟩

def ExchangeRate.euroDollar : ExchangeRate :=
  ⟨.euroDollar, ⟨false, 997, 3, by decide, by decide⟩, Decimal.threeTenths⟩

theorem Desk.withMargin_euroDollar (minimum : Decimal) :
    (euroDollar minimum).withMargin .euroDollar = .ok .euroDollar := by
  have hpart : Decimal.threeTenths.div? Decimal.hundred =
      some ⟨false, 3, 3, by decide, by decide⟩ := by decide +kernel
  have hrest : Decimal.one.sub? ⟨false, 3, 3, by decide, by decide⟩ =
      some ⟨false, 997, 3, by decide, by decide⟩ := by decide +kernel
  have hbuy : Decimal.one.mul? ⟨false, 997, 3, by decide, by decide⟩ =
      some ⟨false, 997, 3, by decide, by decide⟩ := by decide +kernel
  exact ExchangeRate.withMargin_eq_ok_iff.mpr ⟨_, _, _, hpart, hrest, hbuy, rfl⟩

theorem Figures.exists_price_thousand {minimum : Decimal}
    (h : minimum ≤ ⟨false, 5000, 3, by decide, by decide⟩) :
    ∃ x : Figures, x.share = ⟨false, 5000, 3, by decide, by decide⟩ ∧
      x.Price (.euroDollar minimum) .euroDollar .euroDollar
        ⟨false, 1000, 0, by decide, by decide⟩ := by
  let share : Decimal := ⟨false, 5000, 3, by decide, by decide⟩
  let total : Decimal := ⟨false, 100500, 2, by decide, by decide⟩
  have hshare : (Decimal.half.div? Decimal.hundred).bind
      (Decimal.mul? ⟨false, 1000, 0, by decide, by decide⟩) = some share := by decide +kernel
  have hmax : share.max minimum = share := if_neg (Int.not_lt.mpr h)
  have hfee : (share.max minimum).roundTo 2 = ⟨false, 500, 2, by decide, by decide⟩ := by
    rw [hmax]
    decide +kernel
  exact ⟨⟨share, _, ⟨false, 997000, 3, by decide, by decide⟩, total⟩, rfl,
    ⟨rfl, hshare, hfee.symm, by decide +kernel, by decide +kernel⟩⟩

namespace MarketDesk

open RunState

variable {now later expiry : Instant} {f : RunState PlainStore Provider} {pair : CurrencyPair}
  {m : ScriptedMarket}

theorem runOn_price_atPar (hset : m.rates[pair]? = some (Decimal.one, Decimal.zero))
    (hexpiry : now.add? ScriptedMarket.validity = some expiry) :
    (Provider.market.price pair now).runOn (.scripted m) =
      (.ok (.ok (.atPar pair m.name now expiry)), .scripted { m with calls := m.calls + 1 }) := by
  change (Provider.price pair (.ok now)).runOn (.scripted m) = _
  rw [Provider.runOn_price_scripted, ScriptedMarket.runOn_price, hset]
  simp only [Rate.make_atPar pair m.name hexpiry]
  rfl

private theorem serve_rate_atPar {d : Desk} (hpolicy : d.policy = Policy.standard)
    (hkept : f.kept? pair now = none) (hmarket : f.market = .scripted m)
    (hset : m.rates[pair]? = some (Decimal.one, Decimal.zero))
    (hroom : f.store.map.count now < f.store.capacity)
    (hexpiry : now.add? ScriptedMarket.validity = some expiry) {shown : ExchangeRate}
    (hshown : d.withMargin (.atPar pair m.name now expiry) = .ok shown) :
    ∃ g, (ofProvider d).serve now (d.rate pair).run f = (.ok (.ok shown), g) ∧
      g.store = ⟨f.store.capacity, f.store.map.assign (Records.rateKey pair)
        (some ⟨Document.write (Rate.atPar pair m.name now expiry), expiry⟩)⟩ ∧
      g.market = .scripted { m with calls := m.calls + 1 } ∧ g.minted = f.minted ∧
      g.ledger = .asked pair (.ok (.atPar pair m.name now expiry)) :: f.ledger := by
  have hprice := runOn_price_atPar hset hexpiry
  have hlife : (ofProvider d).desk.policy.rateLife = ScriptedMarket.validity :=
    congrArg Policy.rateLife hpolicy
  rw [← hmarket] at hprice
  have hserve := (ofProvider d).serve_rate_of_price now f hkept hprice hroom
    (by rw [hlife]; decide) (by rw [hlife]; exact hexpiry) hshown
  exact ⟨_, hserve, rfl, rfl, rfl, rfl⟩

private theorem serve_rate_standard (hkept : f.kept? pair now = none) (hmarket : f.market = .scripted m)
    (hset : m.rates[pair]? = some (Decimal.one, Decimal.zero))
    (hroom : f.store.map.count now < f.store.capacity)
    (hexpiry : now.add? ScriptedMarket.validity = some expiry) :
    ∃ shown g, (ofProvider .standard).serve now ((ofProvider .standard).desk.rate pair).run f =
        (.ok (.ok shown), g) ∧ shown.rate = .atPar pair m.name now expiry ∧
      g.store = ⟨f.store.capacity, f.store.map.assign (Records.rateKey pair)
        (some ⟨Document.write (Rate.atPar pair m.name now expiry), expiry⟩)⟩ ∧
      g.market = .scripted { m with calls := m.calls + 1 } ∧ g.minted = f.minted ∧
      g.ledger = .asked pair (.ok (.atPar pair m.name now expiry)) :: f.ledger := by
  obtain ⟨shown, hshown⟩ := Desk.isValid_standard.exists_withMargin (.atPar pair m.name now expiry)
  obtain ⟨g, hserve, hkeeps⟩ := serve_rate_atPar rfl hkept hmarket hset hroom hexpiry hshown
  exact ⟨shown, g, hserve, Desk.rate_of_withMargin hshown, hkeeps⟩

theorem runOn_priceAll_atPar (hset : m.rates[pair]? = some (Decimal.one, Decimal.zero))
    (hexpiry : now.add? ScriptedMarket.validity = some expiry) :
    (Provider.market.priceAll [pair] now).runOn (.scripted m) =
      (.ok [.atPar pair m.name now expiry],
        .scripted { m with calls := m.calls + 1, batchCalls := m.batchCalls + 1 }) := by
  have hprice : (Provider.price pair (.ok now)).runOn
      (.scripted { m with batchCalls := m.batchCalls + 1 }) = _ := runOn_price_atPar hset hexpiry
  change (Provider.priceAll [pair] (.ok now)).runOn _ = _
  unfold Provider.priceAll
  rw [runOn_bind_ok (runOn_modify _ _)]
  unfold Provider.priceEach Provider.noteBatch
  rw [runOn_bind_ok hprice]
  rfl

theorem serve_rates_standard (hkept : f.kept? pair now = none) (hmarket : f.market = .scripted m)
    (hset : m.rates[pair]? = some (Decimal.one, Decimal.zero))
    (hroom : f.store.map.count now < f.store.capacity)
    (hexpiry : now.add? ScriptedMarket.validity = some expiry) (count : Nat) :
    ∃ shown g, (ofProvider .standard).serve now
        ((ofProvider .standard).desk.rates (List.replicate (count + 1) pair)) f = (.ok shown, g) ∧
      shown.length = count + 1 := by
  have hmissing : missing now f (List.replicate (count + 1) pair) = [pair] := by
    rw [missing, List.replicate_succ, List.eraseDups_cons]
    simp [hkept]
  have hprices := runOn_priceAll_atPar hset hexpiry
  rw [← hmarket] at hprices
  have hbuy : ∃ g, (ofProvider .standard).buyAll now f [pair] =
      (.ok [.atPar pair m.name now expiry], g) := by
    have hask : (ofProvider .standard).askAll now [pair] f = (.ok _, _) := askAll_of_ok hprices
    have hshelve : (ofProvider .standard).shelve now _ (.atPar pair m.name now expiry) = _ :=
      shelve_of_room _ now
        { f with
          market := .scripted { m with calls := m.calls + 1, batchCalls := m.batchCalls + 1 }
          ledger := .askedAll [pair] [.atPar pair m.name now expiry] :: f.ledger }
        hroom (by decide) hexpiry
    have hnonempty : [pair].isEmpty = false := rfl
    unfold buyAll
    rw [hnonempty, hask]
    simp only [Bool.false_eq_true, if_false, andThen_ok, shelveAll, hshelve]
    exact ⟨_, rfl⟩
  obtain ⟨g, hbuy⟩ := hbuy
  have hpick : Desk.pick? [Rate.atPar pair m.name now expiry]
      (known now f (List.replicate (count + 1) pair)) pair = some (.atPar pair m.name now expiry) := by
    simp [Desk.pick?, Rate.atPar]
  obtain ⟨shown, hshown⟩ := Desk.isValid_standard.exists_mapM_withMargin
    (List.replicate (count + 1) (Rate.atPar pair m.name now expiry))
  refine ⟨shown, g, ?_, ?_⟩
  · rw [serve_rates, hmissing, hbuy, andThen_ok, List.filterMap_replicate_of_some hpick]
    exact congrArg (·, g) hshown
  · have hlength := congrArg List.length (Desk.rates_of_withMargin hshown).1
    rwa [List.length_map, List.length_replicate] at hlength

theorem run_rate_standard {capacity : Nat} (hcapacity : 0 < capacity)
    (hset : m.rates[pair]? = some (Decimal.one, Decimal.zero))
    (hexpiry : now.add? ScriptedMarket.validity = some expiry) :
    ∃ shown g, (ofProvider .standard).run [⟨now, .request (.rate pair)⟩]
        (opening (PlainStore.mk capacity .empty) (.scripted m)) =
          ([⟨⟨now, .request (.rate pair)⟩, .ok (.ok (.rate shown))⟩], g) ∧
      g.store = ⟨capacity, .assign .empty (Records.rateKey pair)
        (some ⟨Document.write (Rate.atPar pair m.name now expiry), expiry⟩)⟩ ∧
      g.market = .scripted { m with calls := m.calls + 1 } ∧
      g.ledger = [.asked pair (.ok (.atPar pair m.name now expiry))] := by
  have hroom : (opening (PlainStore.mk capacity .empty) (Provider.scripted m)).store.map.count now <
      capacity := by
    rw [opening, TimedMap.count_empty]
    exact hcapacity
  obtain ⟨shown, g, hserve, -, hstore, hmarket, -, hledger⟩ := serve_rate_standard
    (f := opening (PlainStore.mk capacity .empty) (.scripted m)) rfl rfl hset hroom hexpiry
  refine ⟨shown, g, ?_, hstore, hmarket, hledger⟩
  rw [run_cons, step_rate, hserve]
  rfl

section Kept

variable {other : CurrencyPair} {source : String}
  (hentry : f.store.map (Records.rateKey other) =
    some ⟨Document.write (Rate.atPar pair source now expiry), expiry⟩)
  (hexpiry : now.add? ScriptedMarket.validity = some expiry)
  (hfresh : later.since now < ScriptedMarket.validity)
include hentry hexpiry hfresh

private theorem serve_rate_kept : ∃ shown,
    (ofProvider .standard).serve later (Desk.standard.rate other).run f = (.ok (.ok shown), f) ∧
      shown.rate = (Rate.atPar pair source now expiry).plain := by
  have hstamp := Rate.stamped_atPar pair source hexpiry
  have hkept := kept?_of_entry hstamp hexpiry hentry later
  rw [hstamp.age_eq, if_pos (Duration.lt_min_iff.mpr ⟨hfresh, hfresh⟩)] at hkept
  obtain ⟨shown, hshown⟩ :=
    Desk.isValid_standard.exists_withMargin (Rate.atPar pair source now expiry).plain
  exact ⟨shown, (ofProvider .standard).serve_rate_of_kept later f hkept hshown,
    Desk.rate_of_withMargin hshown⟩

theorem step_rate_standard : ∃ shown,
    (ofProvider .standard).step ⟨later, .request (.rate other)⟩ f = (.ok (.ok (.rate shown)), f) ∧
      shown.rate = (Rate.atPar pair source now expiry).plain := by
  obtain ⟨shown, hserve, hshown⟩ := serve_rate_kept hentry hexpiry hfresh
  have hserve' : (ofProvider .standard).serve later ((ofProvider .standard).desk.rate other).run f = _ :=
    hserve
  refine ⟨shown, ?_, hshown⟩
  rw [step_rate, hserve']
  rfl

theorem step_lock_standard {seconds : Int} {length : Duration} {last : Instant}
    (hclamp : LockTerms.standard.clampLength seconds = .ok length) (hlength : Duration.zero < length)
    (hlast : later.add? length = some last) (hroom : f.store.map.count later < f.store.capacity) :
    ∃ lock g, (ofProvider .standard).step ⟨later, .request (.lock other seconds)⟩ f =
      (.ok (.ok (.lock lock)), g) ∧ g.ledger = f.ledger := by
  obtain ⟨shown, hserve, -⟩ := serve_rate_kept hentry hexpiry hfresh
  have hserve' : (ofProvider .standard).serve later ((ofProvider .standard).desk.rate other).run f = _ :=
    hserve
  have hclamp' : (ofProvider .standard).desk.policy.lockTerms.clampLength seconds = .ok length := hclamp
  rw [step_lock, serve_lock, hclamp']
  simp only [hserve', andThen_ok, orError_ok,
    (ofProvider .standard).issue_of_room later f shown hroom hlength hlast]
  exact ⟨_, _, rfl, rfl⟩

end Kept

theorem run_lock_standard {capacity : Nat} (hcapacity : 1 < capacity) {seconds : Int}
    {length : Duration} (hclamp : LockTerms.standard.clampLength seconds = .ok length)
    (hlength : Duration.zero < length) (hend : now.add? length = some later)
    (hset : m.rates[pair]? = some (Decimal.one, Decimal.zero))
    (hexpiry : now.add? ScriptedMarket.validity = some expiry) :
    ∃ lock g, (ofProvider .standard).run [⟨now, .request (.lock pair seconds)⟩]
        (opening (PlainStore.mk capacity .empty) (.scripted m)) =
          ([⟨⟨now, .request (.lock pair seconds)⟩, .ok (.ok (.lock lock))⟩], g) ∧
      lock.expiresAt = some ↑later := by
  have hroom : (opening (PlainStore.mk capacity .empty) (Provider.scripted m)).store.map.count now <
      capacity := by
    rw [opening, TimedMap.count_empty]
    exact Nat.zero_lt_of_lt hcapacity
  obtain ⟨shown, g, hserve, -, hstore, -⟩ := serve_rate_standard
    (f := opening (PlainStore.mk capacity .empty) (.scripted m)) rfl rfl hset hroom hexpiry
  have hmore : g.store.map.count now < g.store.capacity := by
    rw [hstore]
    exact Nat.lt_of_le_of_lt (TimedMap.count_assign_empty_le _ _ now) hcapacity
  have hissue := (ofProvider .standard).issue_of_room now g shown hmore hlength hend
  have hclamp' : (ofProvider .standard).desk.policy.lockTerms.clampLength seconds = .ok length :=
    hclamp
  rw [run_cons, step_lock, serve_lock, hclamp']
  simp only [hserve, andThen_ok, orError_ok, hissue]
  exact ⟨_, _, rfl, rfl⟩

/-! ### Quotes at par -/

def euroDollarMarket : ScriptedMarket := (ScriptedMarket.empty "par").setRate .euroDollar .one .zero

def euroDollarState : RunState PlainStore Provider := opening ⟨1, .empty⟩ (.scripted euroDollarMarket)

theorem serve_rate_euroDollar (minimum : Decimal) :
    ∃ g, (ofProvider (.euroDollar minimum)).serve .epoch
        ((Desk.euroDollar minimum).rate .euroDollar).run euroDollarState =
      (.ok (.ok .euroDollar), g) := by
  have hroom : euroDollarState.store.map.count .epoch < euroDollarState.store.capacity := by
    rw [euroDollarState, opening, TimedMap.count_empty]
    exact Nat.one_pos
  have hexpiry : Instant.epoch.add? ScriptedMarket.validity = some ⟨30000000000, by decide⟩ := by
    decide
  obtain ⟨g, hserve, -⟩ := serve_rate_atPar (d := .euroDollar minimum) (m := euroDollarMarket) rfl rfl
    rfl Std.HashMap.getElem?_insert_self hroom hexpiry (Desk.withMargin_euroDollar minimum)
  exact ⟨g, hserve⟩

theorem serve_quote_euroDollar {minimum amount : Decimal} {x : Figures}
    (hamount : Decimal.zero < amount)
    (hx : x.Price (.euroDollar minimum) .euroDollar .euroDollar amount) :
    ∃ id g, (ofProvider (.euroDollar minimum)).serve .epoch
        ((Desk.euroDollar minimum).quote .euroDollar amount).run euroDollarState =
      (.ok (.ok (x.quote .euroDollar .euroDollar amount id)), g) := by
  obtain ⟨g, hserve⟩ := serve_rate_euroDollar minimum
  exact ⟨_, _, (serveBy_quote_eq_ok_iff ((ofProvider _).endsOnCrash_handler .epoch)).mpr
    ⟨_, _, g, x, _, Desk.corridorFor_euroDollar minimum hamount, hserve, hx, rfl, rfl⟩⟩

end MarketDesk

end Bureau
