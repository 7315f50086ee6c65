import Bureau.Proofs.Provider.Readings

/-!
Rates of a simulated market bracket their mid as far as 28 places show it. Mids are never negative,
whichever way they are derived and whatever offsets are in force, and bid and ask never lie on the wrong
side; but a spread that is too narrow for the mid is lost.
-/

set_option autoImplicit false

namespace Bureau

open Attempt

/-! ### Prices are not negative -/

private theorem Leg.price?_nonneg {leg : Leg} {mid price : Decimal} (hmid : 0 ≤ mid.value)
    (h : leg.price? mid = some price) : 0 ≤ price.value := by
  cases leg with
  | direct base =>
      cases h
      exact hmid
  | inverse base =>
      refine (Decimal.rounds_div? h).nonneg ?_
      rw [Decimal.value_one]
      positivity

private theorem Route.price?_nonneg {route : Route} {mids : List Decimal} {price : Decimal}
    (hmids : ∀ mid ∈ mids, 0 ≤ mid.value) (h : route.price? mids = some price) :
    0 ≤ price.value := by
  unfold Route.price? at h
  split at h
  · rename_i leg mid
    exact leg.price?_nonneg (hmids mid (List.mem_singleton.mpr rfl)) h
  · rename_i first second a b
    obtain ⟨p, hp, h⟩ := Option.bind_eq_some_iff.mp h
    obtain ⟨q, hq, h⟩ := Option.bind_eq_some_iff.mp h
    have hp' := first.price?_nonneg (hmids a (by simp)) hp
    have hq' := second.price?_nonneg (hmids b (by simp)) hq
    exact (Decimal.rounds_mul? h).nonneg (mul_nonneg hp' hq')
  · cases h

namespace SimulatedMarket

variable {m m' : SimulatedMarket} {now : Instant}

private theorem mid_nonneg_of_reading? {base : BaseRate} {r : Reading} (hinside : m.IsInside)
    (hdrift : m.settings.drift.IsValid) (hmid : 0 < base.mid.value)
    (h : m.reading? now base = some (r, m')) : 0 ≤ r.mid.value ∧ MovesOn m m' := by
  obtain ⟨hafter, -, -, hdrifted, rfl⟩ := reading?_eq_some.mp h
  obtain ⟨factor, hfactor, hproduct⟩ := Option.bind_eq_some_iff.mp hdrifted
  have hoffset : |r.offset.value| < 1 :=
    lt_of_le_of_lt (Walk.abs_le_of_after? hafter)
      (max_lt hdrift.offset_lt (hinside.walk base.pair now))
  have hpos : 0 ≤ factor.value := by
    refine (Decimal.rounds_add? hfactor).nonneg ?_
    have hlow := (abs_lt.mp hoffset).1
    rw [Decimal.value_one]
    linarith
  have hnonneg := (Decimal.rounds_mul? hproduct).nonneg (mul_nonneg hmid.le hpos)
  exact ⟨hnonneg, movesOn_withWalk fun _ _ => hoffset⟩

private theorem mids_nonneg_of_readings? {bases : List BaseRate} {rs : List Reading}
    (hinside : m.IsInside) (hdrift : m.settings.drift.IsValid)
    (hmids : ∀ base ∈ bases, 0 < base.mid.value) (h : m.readings? now bases = some (rs, m')) :
    ∀ r ∈ rs, 0 ≤ r.mid.value := by
  induction bases generalizing m rs with
  | nil =>
      cases h
      exact fun r hr => absurd hr List.not_mem_nil
  | cons base rest ih =>
      obtain ⟨first, others, k, hfirst, hothers, rfl⟩ := readings?_cons_eq_some h
      obtain ⟨hmid, hmoves⟩ :=
        mid_nonneg_of_reading? hinside hdrift (hmids base (List.mem_cons_self ..)) hfirst
      have hrest := ih (hmoves.isInside hdrift hinside) (hmoves.settings_eq ▸ hdrift)
        (fun other hother => hmids other (List.mem_cons_of_mem _ hother)) hothers
      intro r hr
      rcases List.mem_cons.mp hr with rfl | hr
      · exact hmid
      · exact hrest r hr

private theorem Reached.mid_nonneg {settings : MarketSettings} (h : Reached settings m)
    {pair : CurrencyPair} {rate : Rate} {rs : List Reading}
    (hcomes : m.ComesOf pair now (.ok rate) rs m') : 0 ≤ rate.mid.value := by
  obtain ⟨hvalid, rfl, hinside⟩ := h.facts
  obtain ⟨route, hroute, hprice, -⟩ := hcomes.rate rate rfl
  refine route.price?_nonneg ?_ hprice
  have hreadings := hcomes.readings
  rw [basesOf, hroute] at hreadings
  have hmids := mids_nonneg_of_readings? hinside hvalid.drift ?_ hreadings
  · intro mid hmid
    obtain ⟨r, hr, rfl⟩ := List.mem_map.mp hmid
    exact hmids r hr
  · intro base hbase
    obtain ⟨leg, hleg, rfl⟩ := List.mem_map.mp hbase
    exact (hvalid.accepts_of_route? hroute leg hleg).mid_pos

/-- A rate brackets its mid exactly where half its spread shows around the mid at 28 places. Bid and ask
never lie on the wrong side of it. -/
theorem brackets_iff_shows {settings : MarketSettings} (h : Reached settings m)
    {pair : CurrencyPair} {clock : Except Crash Instant} {rate : Rate}
    (hprice : (price pair clock).runOn m = (.ok (.ok rate), m')) :
    ∃ half, rate.spreadPercent.div? Decimal.twoHundred = some half ∧
      rate.bid ≤ rate.mid ∧ rate.mid ≤ rate.ask ∧
      (Decimal.zero < rate.mid ∧ rate.bid < rate.mid ∧ rate.mid < rate.ask ↔
        ShowsAround rate.mid half) := by
  obtain ⟨now, rs, -, hcomes⟩ := comesOf_of_runOn_price_clock hprice
  obtain ⟨hvalid, rfl, -⟩ := h.facts
  obtain ⟨route, hroute, -, hmake⟩ := hcomes.rate rate rfl
  exact Rate.make_brackets hmake (h.mid_nonneg hcomes) (hvalid.isSpread_spreadOf hroute)

/-! ### Fresh markets -/

theorem reading?_fresh (hempty : m.walks = ∅) (base : BaseRate) (now : Instant)
    (hone : base.mid.mul? Decimal.one = some base.mid) :
    m.reading? now base = some (⟨base, none, { Walk.start now with pinned := false }, base.mid⟩,
      m.withWalk base.pair { Walk.start now with pinned := false }) := by
  have hsum : Decimal.one.add? Decimal.zero = some Decimal.one := by decide +kernel
  refine reading?_eq_some.mpr ⟨?_, rfl, ?_, ?_, rfl⟩
  · rw [walk_fresh hempty]
    exact Walk.after?_of_not_due rfl
  · rw [hempty]
    exact Std.HashMap.getElem?_empty.symm
  · change (Decimal.one.add? Decimal.zero).bind _ = _
    rw [hsum]
    exact hone

def steadySettings (pair : CurrencyPair) (mid spread : Decimal) : MarketSettings :=
  { MarketSettings.standard with
    baseRates := [⟨pair, mid, some spread⟩]
    drift := { Drift.standard with enabled := false } }

private theorem reached_steady {pair : CurrencyPair} {mid spread : Decimal}
    (hvalid : (steadySettings pair mid spread).validate = .ok ()) :
    Reached (steadySettings pair mid spread) ⟨steadySettings pair mid spread, 0, ∅⟩ :=
  .make (make_of_validate hvalid 0)

/-- A spread of a tenth of a percent shows around a mid of four. -/
theorem brackets_iff_shows_wide :
    let pair : CurrencyPair := ⟨⟨"EUR"⟩, ⟨"USD"⟩⟩
    let four : Decimal := ⟨false, 4, 0, by decide, by decide⟩
    let wide : Decimal := ⟨false, 1, 1, by decide, by decide⟩
    let now : Instant := ⟨0, by decide⟩
    let m : SimulatedMarket := ⟨steadySettings pair four wide, 0, ∅⟩
    ∃ rate m', Reached (steadySettings pair four wide) m ∧
      (price pair (.ok now)).runOn m = (.ok (.ok rate), m') ∧
      Decimal.zero < rate.mid ∧ rate.bid < rate.mid ∧ rate.mid < rate.ask := by
  intro pair four wide now m
  have hreached : Reached (steadySettings pair four wide) m := reached_steady (by decide +kernel)
  let base : BaseRate := ⟨pair, four, some wide⟩
  let rate : Rate := ⟨pair, four, ⟨false, 39980, 4, by decide, by decide⟩,
    ⟨false, 40020, 4, by decide, by decide⟩, wide, "SIMULATED", now,
    (⟨30000000000, by decide⟩ : Instant)⟩
  have hroute : m.settings.route? base.pair = some (.single (.direct base)) := by decide +kernel
  have hmake : Rate.make base.pair four wide m.settings.validity m.settings.name now = .ok rate := by
    decide +kernel
  have hread := reading?_fresh (m := m) rfl base now (by decide +kernel)
  have hprice := runOn_price_single hroute hread rfl hmake
  obtain ⟨half, hhalf, -, -, hiff⟩ := brackets_iff_shows hreached hprice
  refine ⟨rate, _, hreached, hprice, hiff.mpr (.inl ?_)⟩
  have hvalue : half = ⟨false, 5, 4, by decide, by decide⟩ := by
    have hsome : rate.spreadPercent.div? Decimal.twoHundred =
        some ⟨false, 5, 4, by decide, by decide⟩ := by decide +kernel
    exact Option.some.inj (hhalf.symm.trans hsome)
  rw [hvalue]
  norm_num [Decimal.value, Decimal.coefficient, rate, four]

/-- A spread of 10⁻²⁶ percent around a mid of four is accepted, but it is lost in the rate, whose bid
and ask are four as well. -/
theorem not_bracketed_narrow :
    let pair : CurrencyPair := ⟨⟨"EUR"⟩, ⟨"USD"⟩⟩
    let four : Decimal := ⟨false, 4, 0, by decide, by decide⟩
    let narrow : Decimal := ⟨false, 1, 26, by decide, by decide⟩
    let now : Instant := ⟨0, by decide⟩
    let m : SimulatedMarket := ⟨steadySettings pair four narrow, 0, ∅⟩
    ∃ rate m', Reached (steadySettings pair four narrow) m ∧
      (price pair (.ok now)).runOn m = (.ok (.ok rate), m') ∧
      ¬ (Decimal.zero < rate.mid ∧ rate.bid < rate.mid ∧ rate.mid < rate.ask) := by
  intro pair four narrow now m
  have hreached : Reached (steadySettings pair four narrow) m :=
    reached_steady (by decide +kernel)
  let base : BaseRate := ⟨pair, four, some narrow⟩
  let rate : Rate := ⟨pair, four, four, four, narrow, "SIMULATED", now,
    (⟨30000000000, by decide⟩ : Instant)⟩
  have hroute : m.settings.route? base.pair = some (.single (.direct base)) := by decide +kernel
  have hmake : Rate.make base.pair four narrow m.settings.validity m.settings.name now =
      .ok rate := by decide +kernel
  have hread := reading?_fresh (m := m) rfl base now (by decide +kernel)
  have hprice := runOn_price_single hroute hread rfl hmake
  exact ⟨rate, _, hreached, hprice, by decide +kernel⟩

end SimulatedMarket

end Bureau
