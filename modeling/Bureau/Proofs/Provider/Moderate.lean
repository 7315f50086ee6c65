import Bureau.Proofs.Provider.Bracket
import Bureau.Proofs.Rate.Precision
import Bureau.Proofs.Time.Instant

/-!
Markets with moderate settings. Where base rates are neither tiny nor huge, every offset leaves at least
a hundredth of them and rates are not quoted for ages, there is room for all arithmetic: whatever the
random steps are, a price never crashes.
-/

set_option autoImplicit false

namespace Bureau

open Attempt Decimal

/-- Settings with room for all arithmetic: the base rates, the steps and bounds of the walks and the
time that rates are quoted for are moderate. -/
structure MarketSettings.IsModerate (s : MarketSettings) : Prop where
  mid : ∀ base ∈ s.baseRates, 1 / 10 ^ 12 ≤ base.mid.value ∧ base.mid.value ≤ 10 ^ 12
  maxStep : s.drift.maxStep.value ≤ 10 ^ 28
  maxOffset : s.drift.maxOffset.value ≤ 99 / 100
  validity : s.validity ≤ Instant.longest

theorem MarketSettings.isModerate_iff {s : MarketSettings} :
    s.IsModerate ↔
      (∀ base ∈ s.baseRates, (⟨false, 1, 12, by decide, by decide⟩ : Decimal) ≤ base.mid ∧
        base.mid ≤ ⟨false, 10 ^ 12, 0, by decide, by decide⟩) ∧
      s.drift.maxStep ≤ ⟨false, 10 ^ 28, 0, by decide, by decide⟩ ∧
      s.drift.maxOffset ≤ ⟨false, 99, 2, by decide, by decide⟩ ∧ s.validity ≤ Instant.longest := by
  have hlow : value ⟨false, 1, 12, by decide, by decide⟩ = 1 / 10 ^ 12 := by
    norm_num [value, coefficient]
  have hhigh : value ⟨false, 10 ^ 12, 0, by decide, by decide⟩ = 10 ^ 12 := by
    norm_num [value, coefficient]
  have hstep : value ⟨false, 10 ^ 28, 0, by decide, by decide⟩ = 10 ^ 28 := by
    norm_num [value, coefficient]
  have hoffset : value ⟨false, 99, 2, by decide, by decide⟩ = 99 / 100 := by
    norm_num [value, coefficient]
  simp only [Decimal.le_iff, hlow, hhigh, hstep, hoffset]
  exact ⟨fun h => ⟨h.mid, h.maxStep, h.maxOffset, h.validity⟩,
    fun h => ⟨h.1, h.2.1, h.2.2.1, h.2.2.2⟩⟩

namespace SimulatedMarket

variable {m m' : SimulatedMarket} {now : Instant}

/-- A market with moderate settings, and offsets that leave at least a hundredth of each base rate. -/
structure IsModerate (m : SimulatedMarket) : Prop where
  settings : m.settings.IsModerate
  valid : m.settings.IsValid
  validity_pos : Duration.zero < m.settings.validity
  size_le : ∀ pair, m.offsetSize pair ≤ 99 / 100

theorem isModerate_of_make {s : MarketSettings} {entropy : UInt64} (hm : make s entropy = .ok m)
    (hs : s.IsModerate) : m.IsModerate := by
  obtain ⟨hvalid, rfl⟩ := make_eq_ok hm
  refine ⟨hs, MarketSettings.isValid_of_validate hvalid, MarketSettings.validity_pos_of_validate hvalid,
    fun pair => ?_⟩
  rw [offsetSize_of_empty rfl]
  norm_num

namespace IsModerate

theorem reads (h : m.IsModerate) (hreads : Reads m m') : m'.IsModerate where
  settings := hreads.settings_eq ▸ h.settings
  valid := hreads.settings_eq ▸ h.valid
  validity_pos := hreads.settings_eq ▸ h.validity_pos
  size_le pair := (hreads.size_le pair).trans (max_le h.settings.maxOffset (h.size_le pair))

theorem exists_reading? (h : m.IsModerate) {base : BaseRate} (hbase : base ∈ m.settings.baseRates)
    (now : Instant) :
    ∃ r k, m.reading? now base = some (r, k) ∧ 9 / 10 ^ 15 ≤ r.mid.value ∧
      r.mid.value ≤ 2 * 10 ^ 12 := by
  have hsize := h.size_le base.pair
  obtain ⟨w, hw⟩ := exists_after? h.valid.drift h.settings.maxStep (hsize.trans (by norm_num)) now
  have hoffset : |w.offset.value| ≤ 99 / 100 :=
    (Walk.abs_le_of_after? hw).trans
      (max_le h.settings.maxOffset (m.offsetSize_eq_walk base.pair now ▸ hsize))
  obtain ⟨hlow, hhigh⟩ := abs_le.mp hoffset
  obtain ⟨hmid0, hmid1⟩ := h.settings.mid base hbase
  obtain ⟨mid, hread, hround⟩ := exists_reading?_of_after? hw (hoffset.trans (by norm_num)) (by
    rw [abs_of_nonneg (by linarith)]
    linarith)
  have hexact0 : 1 / 10 ^ 14 ≤ base.mid.value * (1 + w.offset.value) := by
    calc (1 / 10 ^ 14 : ℚ) = 1 / 10 ^ 12 * (1 / 100) := by norm_num
      _ ≤ base.mid.value * (1 + w.offset.value) :=
        mul_le_mul hmid0 (by linarith) (by norm_num) (by linarith)
  have hexact1 : base.mid.value * (1 + w.offset.value) ≤ 10 ^ 12 * (199 / 100) :=
    mul_le_mul hmid1 (by linarith) (by linarith) (by norm_num)
  obtain ⟨hbelow, habove⟩ := hround.bounds (by linarith)
  refine ⟨_, _, hread, ?_, ?_⟩
  · change 9 / 10 ^ 15 ≤ mid.value
    linarith
  · change mid.value ≤ 2 * 10 ^ 12
    linarith

theorem exists_legMid (h : m.IsModerate) {leg : Leg} (hbase : leg.base ∈ m.settings.baseRates)
    (now : Instant) :
    ∃ price k, (legMid now leg).runOn m = (.ok price, k) ∧ 0 ≤ price.value ∧
      price.value ≤ 12 * 10 ^ 13 := by
  obtain ⟨r, k, hr, hlow, hhigh⟩ := h.exists_reading? hbase now
  cases leg with
  | direct base =>
      exact ⟨r.mid, k, runOn_legMid_eq_ok.mpr ⟨r, hr, rfl⟩, by linarith, by linarith⟩
  | inverse base =>
      have hpos : 0 < r.mid.value := by linarith
      have hquotient : one.value / r.mid.value ≤ 112 * 10 ^ 12 := by
        rw [value_one, div_le_iff₀ hpos]
        linarith
      have hnonneg : 0 ≤ one.value / r.mid.value := by
        rw [value_one]
        positivity
      obtain ⟨price, hprice⟩ := exists_div? (a := one) hpos.ne' (by
        rw [abs_of_nonneg hnonneg]
        linarith)
      have hround := rounds_div? hprice
      have habove := (hround.bounds hnonneg).2
      exact ⟨price, k, runOn_legMid_eq_ok.mpr ⟨r, hr, hprice⟩, hround.nonneg hnonneg,
        by linarith⟩

theorem exists_routeMid (h : m.IsModerate) {pair : CurrencyPair} {route : Route}
    (hroute : m.settings.route? pair = some route) (now : Instant) :
    ∃ mid k, (routeMid now route).runOn m = (.ok mid, k) ∧ 0 ≤ mid.value ∧
      mid.value ≤ 3 * 10 ^ 28 := by
  have hbase : ∀ leg ∈ route.legs, leg.base ∈ m.settings.baseRates := fun leg hleg =>
    List.mem_of_find?_eq_some (MarketSettings.baseRate?_of_route? hroute leg hleg)
  cases route with
  | single leg =>
      obtain ⟨price, k, hrun, h0, hle⟩ := h.exists_legMid (hbase leg (by simp [Route.legs])) now
      exact ⟨price, k, hrun, h0, by linarith⟩
  | bridge first second =>
      obtain ⟨a, k, hruna, ha0, hale⟩ := h.exists_legMid (hbase first (by simp [Route.legs])) now
      have hreads := m.reads_legMid first now
      rw [hruna] at hreads
      obtain ⟨b, k', hrunb, hb0, hble⟩ := (h.reads hreads).exists_legMid
        (hreads.settings_eq ▸ hbase second (by simp [Route.legs])) now
      have hproduct0 : 0 ≤ a.value * b.value := mul_nonneg ha0 hb0
      have hproduct1 : a.value * b.value ≤ 12 * 10 ^ 13 * (12 * 10 ^ 13) :=
        mul_le_mul hale hble hb0 (by norm_num)
      obtain ⟨mid, hmid⟩ := exists_mul? (a := a) (b := b) (by
        rw [abs_of_nonneg hproduct0]
        linarith)
      have hround := rounds_mul? hmid
      have habove := (hround.bounds hproduct0).2
      refine ⟨mid, k', ?_, hround.nonneg hproduct0, by linarith⟩
      unfold routeMid
      rw [runOn_bind_ok hruna, runOn_bind_ok hrunb, hmid]
      rfl

/-- No price of a moderate market crashes at any time before the year 10000. -/
theorem exists_price (h : m.IsModerate) (hnow : now.IsFourDigit) (pair : CurrencyPair) :
    ∃ reply, ((price pair (.ok now)).runOn m).1 = .ok reply := by
  rw [runOn_price]
  cases hroute : m.settings.route? pair with
  | none => exact ⟨_, rfl⟩
  | some route =>
      obtain ⟨mid, k, hrun, h0, hle⟩ := h.exists_routeMid hroute now
      obtain ⟨half, bid, ask, -, -, -, -, -, hmake⟩ :=
        Rate.exists_make_eq pair m.settings.validity m.settings.name now h0 hle
          (h.valid.isSpread_spreadOf hroute)
      obtain ⟨last, hlast⟩ := hnow.exists_add? (Int.le_of_lt h.validity_pos) h.settings.validity
      simp only [hrun, andThen_ok, hmake, hlast]
      exact ⟨_, rfl⟩

theorem setDrift (h : m.IsModerate) (pair : CurrencyPair) {offset : Decimal}
    (hoffset : |offset.value| < 1 → |offset.value| ≤ 99 / 100) (now : Instant) :
    ((SimulatedMarket.setDrift pair offset (.ok now)).runOn m).2.IsModerate := by
  rw [runOn_setDrift]
  split_ifs with hbase hgreat
  · exact h
  · exact h
  · rw [Decimal.le_iff, value_one, value_abs, not_le] at hgreat
    refine ⟨h.settings, h.valid, h.validity_pos, fun other => ?_⟩
    rw [offsetSize_withWalk]
    split_ifs
    · exact hoffset hgreat
    · exact h.size_le other

theorem resetDrift (h : m.IsModerate) : m.resetDrift.IsModerate := by
  refine ⟨h.settings, h.valid, h.validity_pos, fun pair => ?_⟩
  rw [offsetSize_of_empty rfl]
  norm_num

end IsModerate

end SimulatedMarket

/-! ### Providers -/

namespace Provider

variable {p : Provider} {now : Instant}

/-- A provider that simulates a moderate market. -/
def IsModerate (p : Provider) : Prop := ∃ m : SimulatedMarket, p = .simulated m ∧ m.IsModerate

/-- An order that leaves at least a hundredth of a base rate, or is refused. -/
def Order.IsModerate : Order → Prop
  | .setDrift _ offset => |offset.value| < 1 → |offset.value| ≤ 99 / 100
  | _ => True

theorem keepsPricing_moderate : market.KeepsPricing IsModerate := by
  refine keepsPricing ?_ ?_
  · rintro pair now p ⟨m, rfl, hm⟩
    rw [runOn_price_simulated]
    exact ⟨_, rfl, hm.reads (m.reads_price pair (.ok now))⟩
  · rintro p ⟨m, rfl, hm⟩
    exact ⟨m, rfl, hm⟩

theorem IsModerate.exists_price (hp : p.IsModerate) (hnow : now.IsFourDigit) (pair : CurrencyPair) :
    ∃ reply q, (price pair (.ok now)).runOn p = (.ok reply, q) ∧ q.IsModerate := by
  have hkept := keepsPricing_moderate.price pair now p hp
  obtain ⟨m, rfl, hm⟩ := hp
  obtain ⟨reply, hreply⟩ := hm.exists_price hnow pair
  refine ⟨reply, _, ?_, hkept⟩
  rw [runOn_price_simulated, hreply]
  rfl

private theorem IsModerate.exists_priceEach (hp : p.IsModerate) (hnow : now.IsFourDigit)
    (pairs : List CurrencyPair) :
    ∃ rates, ((priceEach (.ok now) pairs).runOn p).1 = .ok rates := by
  induction pairs generalizing p with
  | nil => exact ⟨[], rfl⟩
  | cons pair rest ih =>
      obtain ⟨reply, q, hreply, hq⟩ := hp.exists_price hnow pair
      obtain ⟨rates, hrates⟩ := ih hq
      rw [runOn_priceEach_cons, hreply, andThen_ok]
      rcases hrun : (priceEach (.ok now) rest).runOn q with ⟨c | others, k⟩
      · rw [hrun] at hrates
        cases hrates
      · exact ⟨_, rfl⟩

theorem IsModerate.exists_priceAll (hp : p.IsModerate) (hnow : now.IsFourDigit)
    (pairs : List CurrencyPair) :
    ∃ rates, ((market.priceAll pairs now).runOn p).1 = .ok rates := by
  obtain ⟨m, rfl, hm⟩ := hp
  have hnoted : (Provider.simulated m).noteBatch.IsModerate := ⟨m, rfl, hm⟩
  exact hnoted.exists_priceEach hnow pairs

theorem obey_ok (p : Provider) (o : Order) (now : Instant) :
    ((obey now o).runOn p).1 = .ok () := by
  cases o with
  | setDrift pair offset =>
      cases p with
      | scripted m => rfl
      | simulated m =>
          rw [obey, runOn_bind, runOn_onSimulated, SimulatedMarket.runOn_setDrift]
          split_ifs <;> rfl
  | resetDrift => cases p <;> rfl
  | setRate pair mid spreadPercent => cases p <;> rfl

theorem IsModerate.obey (hp : p.IsModerate) {o : Order} (ho : o.IsModerate) (now : Instant) :
    ((Provider.obey now o).runOn p).2.IsModerate := by
  obtain ⟨m, rfl, hm⟩ := hp
  cases o with
  | setDrift pair offset =>
      rw [Provider.obey, runOn_bind_pure_snd, runOn_onSimulated]
      exact ⟨_, rfl, hm.setDrift pair ho now⟩
  | resetDrift =>
      rw [Provider.obey, runOn_bind_pure_snd, runOn_onSimulated]
      exact ⟨_, rfl, hm.resetDrift⟩
  | setRate pair mid spreadPercent => exact ⟨m, rfl, hm⟩

end Provider

end Bureau
