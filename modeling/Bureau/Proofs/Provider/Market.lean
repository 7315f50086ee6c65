import Bureau.Proofs.Serving.Records

/-!
Providers as markets. A provider prices the pairs it is asked for and supports; each
rate carries the time it was made at and is quoted for the validity of the provider, which nothing
changes.
-/

set_option autoImplicit false

namespace Bureau

open Attempt

/-- A market whose rates are stamped with the time and one validity, as long as its state is good.
-/
structure Market.Stamps {μ κ : Type} (market : Market μ κ) (validFor : Duration) (good : μ → Prop)
    (supports : μ → CurrencyPair → Bool) : Prop where
  price_good : ∀ pair now s, good s → good ((market.price pair now).runOn s).2
  price_rate : ∀ pair now s r, good s → ((market.price pair now).runOn s).1 = .ok (.ok r) →
    r.pair = pair ∧ r.Stamped now validFor
  price_error : ∀ pair now s e, good s → ((market.price pair now).runOn s).1 = .ok (.error e) →
    supports s pair = false
  priceAll_good : ∀ pairs now s, good s → good ((market.priceAll pairs now).runOn s).2
  priceAll_rates : ∀ pairs now s rates, good s →
    ((market.priceAll pairs now).runOn s).1 = .ok rates →
      (rates.map (·.pair)).Sublist pairs ∧ (∀ r ∈ rates, r.Stamped now validFor) ∧
        ∀ pair ∈ pairs, supports s pair = true → pair ∈ rates.map (·.pair)
  order_good : ∀ o now s, good s → good ((market.order o now).runOn s).2

namespace Rate

private theorem make_stamped {pair : CurrencyPair} {mid spreadPercent : Decimal} {validFor : Duration}
    {source : String} {now : Instant} {r : Rate}
    (h : make pair mid spreadPercent validFor source now = .ok r) :
    r.pair = pair ∧ r.Stamped now validFor := by
  obtain ⟨half, -, h⟩ := exists_of_bind_eq_ok h
  obtain ⟨bid, -, h⟩ := exists_of_bind_eq_ok h
  obtain ⟨ask, -, h⟩ := exists_of_bind_eq_ok h
  obtain ⟨last, hlast, h⟩ := exists_of_bind_eq_ok h
  cases h
  exact ⟨rfl, rfl, last, unless_eq_ok hlast, rfl⟩

end Rate

/-! ### Scripted markets -/

namespace ScriptedMarket

variable (m : ScriptedMarket) (pair : CurrencyPair) (now : Instant)

theorem runOn_price :
    (price pair (.ok now)).runOn m =
      match m.rates[pair]? with
      | none => (.ok (.error (.unsupportedPair pair)), { m with calls := m.calls + 1 })
      | some (mid, spreadPercent) =>
          ((Rate.make pair mid spreadPercent validity m.name now).map .ok,
            { m with calls := m.calls + 1 }) := by
  unfold price
  rw [runOn_bind_ok (runOn_modify _ m), runOn_bind_ok (runOn_get _)]
  cases m.rates[pair]? with
  | none => rfl
  | some set =>
      obtain ⟨mid, spreadPercent⟩ := set
      change (do return Except.ok (← Rate.make pair mid spreadPercent validity m.name now) :
        Attempt ScriptedMarket (Except FxError Rate)).runOn _ = _
      cases hmake : Rate.make pair mid spreadPercent validity m.name now with
      | error c => simp only [hmake]; rfl
      | ok r => simp only [hmake]; rfl

end ScriptedMarket

/-! ### Simulated markets -/

namespace SimulatedMarket

variable (m : SimulatedMarket) (pair : CurrencyPair) (now : Instant)

private theorem settings_driftedMid (base : BaseRate) :
    ((driftedMid base now).runOn m).2.settings = m.settings := by
  unfold driftedMid
  rw [runOn_bind_ok (runOn_get _)]
  rcases hread : (Walk.read m.settings.drift (m.unit base.pair) now).runOn (m.walk base.pair now)
    with ⟨c | offset, walk⟩ <;> simp only <;> rfl

private theorem settings_legMid (leg : Leg) :
    ((legMid now leg).runOn m).2.settings = m.settings := by
  cases leg with
  | direct base => exact m.settings_driftedMid now base
  | inverse base =>
      have hdrift := m.settings_driftedMid now base
      unfold legMid
      rw [runOn_bind]
      rcases hmid : (driftedMid base now).runOn m with ⟨c | mid, t⟩ <;> rw [hmid] at hdrift <;>
        exact hdrift

private theorem settings_routeMid (route : Route) :
    ((routeMid now route).runOn m).2.settings = m.settings := by
  cases route with
  | single leg => exact m.settings_legMid now leg
  | bridge first second =>
      have hfirst := m.settings_legMid now first
      unfold routeMid
      rw [runOn_bind]
      rcases hmid : (legMid now first).runOn m with ⟨c | a, t⟩ <;> rw [hmid] at hfirst
      · exact hfirst
      · have hsecond := t.settings_legMid now second
        simp only
        rw [runOn_bind]
        rcases hmid' : (legMid now second).runOn t with ⟨c | b, u⟩ <;> rw [hmid'] at hsecond <;>
          exact hsecond.trans hfirst

theorem runOn_price :
    (price pair (.ok now)).runOn m =
      match m.settings.route? pair with
      | none => (.ok (.error (.unsupportedPair pair)), m)
      | some route =>
          andThen ((routeMid now route).runOn m) fun mid t =>
            ((Rate.make pair mid (m.settings.spreadOf route) m.settings.validity m.settings.name
              now).map .ok, t) := by
  unfold price
  rw [runOn_bind_ok (runOn_get _)]
  dsimp only
  cases m.settings.route? pair with
  | none => rfl
  | some route =>
      dsimp only
      rw [runOn_bind_ok (runOn_liftM (.ok now) m), runOn_bind_eq_andThen]
      congr 1
      funext mid t
      rw [runOn_bind, runOn_liftM]
      cases
        Rate.make pair mid (m.settings.spreadOf route) m.settings.validity m.settings.name now <;>
        rfl

theorem settings_price : ((price pair (.ok now)).runOn m).2.settings = m.settings := by
  rw [runOn_price]
  cases m.settings.route? pair with
  | none => rfl
  | some route =>
      have hmid := m.settings_routeMid now route
      rcases hrun : (routeMid now route).runOn m with ⟨c | mid, t⟩ <;> rw [hrun] at hmid <;>
        simp only [hrun] <;> exact hmid

private theorem settings_setDrift (offset : Decimal) :
    ((setDrift pair offset (.ok now)).runOn m).2.settings = m.settings := by
  unfold setDrift
  rw [runOn_bind_ok (runOn_get _)]
  split
  · rfl
  · split <;> rfl

end SimulatedMarket

/-! ### Providers -/

namespace Provider

def validity : Provider → Duration
  | .simulated m => m.settings.validity
  | .scripted _ => ScriptedMarket.validity

/-- What a single pricing does, whether it succeeds or not. -/
structure Prices (p : Provider) (pair : CurrencyPair) (now : Instant)
    (x : Except Crash (Except FxError Rate) × Provider) : Prop where
  validity_eq : x.2.validity = p.validity
  supports_eq : ∀ q, x.2.supports q = p.supports q
  rate : ∀ r, x.1 = .ok (.ok r) → r.pair = pair ∧ r.Stamped now p.validity
  error : ∀ e, x.1 = .ok (.error e) → p.supports pair = false

private theorem map_ok_eq_ok {x : Except Crash Rate} {r : Rate}
    (h : x.map (Except.ok (ε := FxError)) = .ok (.ok r)) : x = .ok r := by
  cases x with
  | error c => cases h
  | ok a =>
      cases h
      rfl

private theorem map_ok_ne_error {x : Except Crash Rate} {e : FxError} :
    x.map (Except.ok (ε := FxError)) ≠ .ok (.error e) := by
  intro h
  cases x with
  | error c => cases h
  | ok a => cases h

theorem runOn_price_simulated (m : SimulatedMarket) (pair : CurrencyPair)
    (clock : Except Crash Instant) :
    (price pair clock).runOn (.simulated m) =
      (((SimulatedMarket.price pair clock).runOn m).1,
        .simulated ((SimulatedMarket.price pair clock).runOn m).2) := rfl

theorem runOn_price_scripted (m : ScriptedMarket) (pair : CurrencyPair)
    (clock : Except Crash Instant) :
    (price pair clock).runOn (.scripted m) =
      (((ScriptedMarket.price pair clock).runOn m).1,
        .scripted ((ScriptedMarket.price pair clock).runOn m).2) := rfl

private theorem prices_simulated (m : SimulatedMarket) (pair : CurrencyPair) (now : Instant) :
    (simulated m).Prices pair now ((price pair (.ok now)).runOn (.simulated m)) := by
  rw [runOn_price_simulated]
  have hsettings := m.settings_price pair now
  have hrun := m.runOn_price pair now
  refine ⟨?_, ?_, ?_, ?_⟩
  · simp only [validity, hsettings]
  · intro q
    simp only [supports, SimulatedMarket.supports, hsettings]
  · intro r hr
    change ((SimulatedMarket.price pair (.ok now)).runOn m).1 = _ at hr
    rw [hrun] at hr
    cases hroute : m.settings.route? pair with
    | none => rw [hroute] at hr; cases hr
    | some route =>
        rw [hroute] at hr
        rcases hmid : (SimulatedMarket.routeMid now route).runOn m with ⟨c | mid, t⟩ <;>
          simp only [hmid] at hr
        · cases hr
        · exact Rate.make_stamped (map_ok_eq_ok hr)
  · intro e he
    change ((SimulatedMarket.price pair (.ok now)).runOn m).1 = _ at he
    rw [hrun] at he
    cases hroute : m.settings.route? pair with
    | none => rw [supports, SimulatedMarket.supports, hroute]; rfl
    | some route =>
        rw [hroute] at he
        rcases hmid : (SimulatedMarket.routeMid now route).runOn m with ⟨c | mid, t⟩ <;>
          simp only [hmid] at he
        · cases he
        · exact absurd he map_ok_ne_error

private theorem prices_scripted (m : ScriptedMarket) (pair : CurrencyPair) (now : Instant) :
    (scripted m).Prices pair now ((price pair (.ok now)).runOn (.scripted m)) := by
  rw [runOn_price_scripted, ScriptedMarket.runOn_price]
  cases hset : m.rates[pair]? with
  | none =>
      refine ⟨rfl, fun q => rfl, fun r hr => (by cases hr), ?_⟩
      intro e he
      rw [supports, ScriptedMarket.supports, ← Std.HashMap.isSome_getElem?_eq_contains, hset]
      rfl
  | some set =>
      obtain ⟨mid, spreadPercent⟩ := set
      exact ⟨rfl, fun q => rfl, fun r hr => Rate.make_stamped (map_ok_eq_ok hr),
        fun e he => absurd he map_ok_ne_error⟩

private theorem prices_price (p : Provider) (pair : CurrencyPair) (now : Instant) :
    p.Prices pair now ((price pair (.ok now)).runOn p) := by
  cases p with
  | simulated m => exact prices_simulated m pair now
  | scripted m => exact prices_scripted m pair now

theorem runOn_price_of_not_supports {p : Provider} {pair : CurrencyPair}
    (h : p.supports pair = false) (now : Instant) :
    ((price pair (.ok now)).runOn p).1 = .ok (.error (.unsupportedPair pair)) := by
  cases p with
  | simulated m =>
      have hroute : m.settings.route? pair = none := Option.not_isSome_iff_eq_none.mp (by
        rw [supports, SimulatedMarket.supports] at h
        simp [h])
      rw [runOn_price_simulated, SimulatedMarket.runOn_price, hroute]
  | scripted m =>
      have hset : m.rates[pair]? = none := Option.not_isSome_iff_eq_none.mp (by
        rw [Std.HashMap.isSome_getElem?_eq_contains]
        exact Bool.eq_false_iff.mp h)
      rw [runOn_price_scripted, ScriptedMarket.runOn_price, hset]

theorem runOn_price_error {p : Provider} {pair : CurrencyPair} {now : Instant} {e : FxError}
    (h : ((price pair (.ok now)).runOn p).1 = .ok (.error e)) : e = .unsupportedPair pair := by
  have hsupports := (prices_price p pair now).error e h
  rw [runOn_price_of_not_supports hsupports now] at h
  cases h
  rfl

theorem runOn_priceEach_cons (clock : Except Crash Instant) (pair : CurrencyPair)
    (rest : List CurrencyPair) (p : Provider) :
    (priceEach clock (pair :: rest)).runOn p =
      andThen ((price pair clock).runOn p) fun reply p =>
        andThen ((priceEach clock rest).runOn p) fun rates p =>
          (.ok (reply.toOption.toList ++ rates), p) := by
  rw [priceEach, runOn_bind_eq_andThen]
  refine congrArg (andThen _) ?_
  funext reply p
  cases reply with
  | error e =>
      change (priceEach clock rest).runOn p = andThen _ fun rates p => (.ok rates, p)
      rcases (priceEach clock rest).runOn p with ⟨c | rates, p⟩ <;> rfl
  | ok rate => exact runOn_bind_eq_andThen _ _ _

/-- What pricing each of several pairs does. -/
structure PricesEach (p : Provider) (pairs : List CurrencyPair) (now : Instant)
    (x : Except Crash (List Rate) × Provider) : Prop where
  validity_eq : x.2.validity = p.validity
  supports_eq : ∀ q, x.2.supports q = p.supports q
  rates : ∀ rates, x.1 = .ok rates → (rates.map (·.pair)).Sublist pairs ∧
    (∀ r ∈ rates, r.Stamped now p.validity) ∧
      ∀ pair ∈ pairs, p.supports pair = true → pair ∈ rates.map (·.pair)

theorem pricesEach_priceEach (p : Provider) (pairs : List CurrencyPair) (now : Instant) :
    p.PricesEach pairs now ((priceEach (.ok now) pairs).runOn p) := by
  induction pairs generalizing p with
  | nil =>
      refine ⟨rfl, fun q => rfl, ?_⟩
      intro rates hrates
      cases hrates
      exact ⟨List.Sublist.refl _, fun r hr => absurd hr List.not_mem_nil,
        fun q hq => absurd hq List.not_mem_nil⟩
  | cons pair rest ih =>
      have hfirst := prices_price p pair now
      unfold priceEach
      rw [runOn_bind]
      rcases hprice : (price pair (.ok now)).runOn p with ⟨c | e | r, p'⟩ <;>
        rw [hprice] at hfirst
      · exact ⟨hfirst.validity_eq, hfirst.supports_eq, fun rates hrates => by cases hrates⟩
      · obtain ⟨hvalidity, hsupports, hrates⟩ := ih p'
        refine ⟨hvalidity.trans hfirst.validity_eq,
          fun q => (hsupports q).trans (hfirst.supports_eq q), ?_⟩
        intro rates heq
        obtain ⟨hsub, hstamped, hall⟩ := hrates rates heq
        refine ⟨hsub.cons pair, fun r hr => hfirst.validity_eq ▸ hstamped r hr, ?_⟩
        intro q hq hq'
        rcases List.mem_cons.mp hq with rfl | hrest
        · rw [hfirst.error e rfl] at hq'
          cases hq'
        · exact hall q hrest ((hfirst.supports_eq q).trans hq')
      · obtain ⟨hvalidity, hsupports, hrates⟩ := ih p'
        obtain ⟨hpair, hstamp⟩ := hfirst.rate r rfl
        simp only
        rw [runOn_bind]
        rcases hrest : (priceEach (.ok now) rest).runOn p' with ⟨c | rs, p''⟩ <;>
          rw [hrest] at hvalidity hsupports hrates
        · exact ⟨hvalidity.trans hfirst.validity_eq,
            fun q => (hsupports q).trans (hfirst.supports_eq q), fun rates heq => by cases heq⟩
        · refine ⟨hvalidity.trans hfirst.validity_eq,
            fun q => (hsupports q).trans (hfirst.supports_eq q), ?_⟩
          intro rates heq
          cases heq
          obtain ⟨hsub, hstamped, hall⟩ := hrates rs rfl
          refine ⟨?_, ?_, ?_⟩
          · rw [List.map_cons, hpair]
            exact hsub.cons_cons pair
          · intro s hs
            rcases List.mem_cons.mp hs with rfl | hs
            · exact hstamp
            · exact hfirst.validity_eq ▸ hstamped s hs
          · intro q hq hq'
            rw [List.map_cons, hpair]
            rcases List.mem_cons.mp hq with rfl | hmem
            · exact List.mem_cons_self
            · exact List.mem_cons_of_mem _ (hall q hmem ((hfirst.supports_eq q).trans hq'))

/-! ### The market of a provider -/

/-- Orders to a provider: to move the drift of a base rate, to forget all drift, or to set a rate by
hand. -/
inductive Order where
  | setDrift (pair : CurrencyPair) (offset : Decimal)
  | resetDrift
  | setRate (pair : CurrencyPair) (mid spreadPercent : Decimal)

/-- Carries out an order; one that the provider does not know does nothing. -/
def obey (now : Instant) : Order → Attempt Provider Unit
  | .setDrift pair offset => do
      let _ ← onSimulated (SimulatedMarket.setDrift pair offset (.ok now))
  | .resetDrift => do
      let _ ← onSimulated (modify (·.resetDrift))
  | .setRate pair mid spreadPercent => modify (·.setRate pair mid spreadPercent)

def market : Market Provider Order where
  price pair now := price pair (.ok now)
  priceAll pairs now := priceAll pairs (.ok now)
  order o now := obey now o

theorem runOn_onSimulated {α : Type} (operation : Attempt SimulatedMarket α) (m : SimulatedMarket) :
    (onSimulated operation).runOn (.simulated m) =
      ((operation.runOn m).1.map some, .simulated (operation.runOn m).2) := by
  unfold onSimulated
  rw [runOn_bind_ok (runOn_get _)]
  rcases hrun : operation.runOn m with ⟨c | a, t⟩ <;> simp only [hrun] <;> rfl

private theorem validity_onSimulated {α : Type} (operation : Attempt SimulatedMarket α)
    (hkeeps : ∀ m, (operation.runOn m).2.settings = m.settings) (p : Provider) :
    ((onSimulated operation).runOn p).2.validity = p.validity := by
  cases p with
  | scripted m => rfl
  | simulated m =>
      rw [runOn_onSimulated]
      exact congrArg MarketSettings.validity (hkeeps m)

/-- What each price keeps a batch keeps, by induction on its pairs. -/
private theorem priceEach_keeps {good : Provider → Prop} {clock : Except Crash Instant}
    (hprice : ∀ pair p, good p → good ((price pair clock).runOn p).2) (pairs : List CurrencyPair)
    (p : Provider) : good p → good ((priceEach clock pairs).runOn p).2 := by
  induction pairs generalizing p with
  | nil => exact id
  | cons pair rest ih =>
      rw [runOn_priceEach_cons]
      refine rel_andThen (R := fun p q => good p → good q) (fun _ _ _ h h' => h' ∘ h)
        (hprice pair p) fun reply q => ?_
      exact rel_andThen (R := fun p q => good p → good q) (fun _ _ _ h h' => h' ∘ h) (ih q)
        fun _ _ => id

theorem keepsPricing {good : Provider → Prop}
    (hprice : ∀ pair now p, good p → good ((price pair (.ok now)).runOn p).2)
    (hnote : ∀ p, good p → good p.noteBatch) : market.KeepsPricing good where
  price := hprice
  priceAll pairs now p hp := priceEach_keeps (fun pair p => hprice pair now p) pairs _ (hnote p hp)

private theorem validity_obey (o : Order) (now : Instant) (p : Provider) :
    ((obey now o).runOn p).2.validity = p.validity := by
  cases o with
  | setDrift pair offset =>
      unfold obey
      rw [runOn_bind_pure_snd]
      exact validity_onSimulated _ (fun m => m.settings_setDrift pair now offset) p
  | resetDrift =>
      unfold obey
      rw [runOn_bind_pure_snd]
      exact validity_onSimulated _ (fun m => rfl) p
  | setRate pair mid spreadPercent => cases p <;> rfl

theorem stamps_market (validFor : Duration) :
    market.Stamps validFor (fun p => p.validity = validFor) supports where
  price_good pair now p hp := (prices_price p pair now).validity_eq.trans hp
  price_rate pair now p r hp hr := hp ▸ (prices_price p pair now).rate r hr
  price_error pair now p e _ he := (prices_price p pair now).error e he
  priceAll_good pairs now p hp := by
    have hvalidity : p.noteBatch.validity = p.validity := by cases p <;> rfl
    exact ((pricesEach_priceEach p.noteBatch pairs now).validity_eq.trans hvalidity).trans hp
  priceAll_rates pairs now p rates hp hrates := by
    have hvalidity : p.noteBatch.validity = p.validity := by cases p <;> rfl
    have hsupports : ∀ q, p.noteBatch.supports q = p.supports q := by cases p <;> exact fun q => rfl
    obtain ⟨hsub, hstamped, hall⟩ := (pricesEach_priceEach p.noteBatch pairs now).rates rates hrates
    refine ⟨hsub, ?_, fun q hq hq' => hall q hq ((hsupports q).trans hq')⟩
    intro r hr
    rw [← hp, ← hvalidity]
    exact hstamped r hr
  order_good o now p hp := (validity_obey o now p).trans hp

end Provider

end Bureau
