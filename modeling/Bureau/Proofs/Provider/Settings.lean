import Bureau.Proofs.Decimal.Value
import Bureau.Provider.Route

/-!
Accepted settings of a simulated market, as bounds on values: base rates are positive, every spread that
can be quoted lies between 0 and 200 percent, and the walks have bounds below one.
-/

set_option autoImplicit false

namespace Bureau

/-- What makes the settings of walks acceptable. -/
structure Drift.IsValid (drift : Drift) : Prop where
  step_nonneg : 0 ≤ drift.maxStep.value
  offset_nonneg : 0 ≤ drift.maxOffset.value
  offset_lt : drift.maxOffset.value < 1
  interval_nonneg : Duration.zero ≤ drift.interval

namespace MarketSettings

def IsSpread (s : Decimal) : Prop := 0 < s.value ∧ s.value < 200

private theorem isSpread_iff {s : Decimal} : isSpread s = true ↔ IsSpread s := by
  rw [isSpread, Bool.and_eq_true, decide_eq_true_eq, decide_eq_true_eq, Decimal.lt_iff,
    Decimal.lt_iff, Decimal.value_zero, Decimal.value_twoHundred]
  rfl

/-- A base rate that is accepted by itself. -/
structure Accepts (base : BaseRate) : Prop where
  mid_pos : 0 < base.mid.value
  spread : ∀ s, base.spreadPercent = some s → IsSpread s

private theorem accepts_of_validateRates {seen : List CurrencyPair} {rates : List BaseRate}
    (h : validateRates seen rates = .ok ()) : ∀ base ∈ rates, Accepts base := by
  induction rates generalizing seen with
  | nil => nofun
  | cons first rest ih =>
      unfold validateRates at h
      split_ifs at h with hidentity hmid hspread hseen
      intro base hbase
      rcases List.mem_cons.mp hbase with rfl | hrest
      · refine ⟨?_, fun s hs => ?_⟩
        · rw [Decimal.le_iff, Decimal.value_zero] at hmid
          exact not_le.mp hmid
        · rw [hs] at hspread
          simpa [isSpread_iff] using hspread
      · exact ih h base hrest

structure IsValid (s : MarketSettings) : Prop where
  drift : s.drift.IsValid
  defaultSpread : IsSpread s.defaultSpread
  accepts : ∀ base ∈ s.baseRates, Accepts base

private theorem of_validate {s : MarketSettings} (h : s.validate = .ok ()) :
    s.IsValid ∧ Duration.zero < s.validity := by
  cases hrates : validateRates [] s.baseRates with
  | error reason =>
      unfold validate at h
      rw [hrates] at h
      simp only [throw, throwThe, MonadExceptOf.throw, bind, Except.bind] at h
      split_ifs at h
  | ok _ =>
      unfold validate at h
      rw [hrates] at h
      simp only [throw, throwThe, MonadExceptOf.throw, bind, Except.bind, pure, Except.pure] at h
      split_ifs at h with hspread hstep hoffset hinterval hvalidity
      rw [not_or, Decimal.lt_iff, Decimal.le_iff, Decimal.value_zero, Decimal.value_one] at hoffset
      rw [Decimal.lt_iff, Decimal.value_zero] at hstep
      refine ⟨⟨⟨not_lt.mp hstep, not_lt.mp hoffset.1, not_le.mp hoffset.2, ?_⟩, ?_, ?_⟩, ?_⟩
      · exact Int.not_lt.mp hinterval
      · rw [← isSpread_iff]
        simpa using hspread
      · exact accepts_of_validateRates hrates
      · exact Int.not_le.mp hvalidity

theorem isValid_of_validate {s : MarketSettings} (h : s.validate = .ok ()) : s.IsValid :=
  (of_validate h).1

theorem validity_pos_of_validate {s : MarketSettings} (h : s.validate = .ok ()) :
    Duration.zero < s.validity :=
  (of_validate h).2

variable {s : MarketSettings}

private theorem baseRate?_pair {pair : CurrencyPair} {base : BaseRate}
    (h : s.baseRate? pair = some base) :
    s.baseRate? base.pair = some base := by
  have hpair := List.find?_some (p := fun other : BaseRate => other.pair == pair) h
  rw [beq_iff_eq.mp hpair]
  exact h

theorem baseRate?_of_leg? {pair : CurrencyPair} {leg : Leg} (h : s.leg? pair = some leg) :
    s.baseRate? leg.base.pair = some leg.base := by
  unfold leg? at h
  cases hdirect : s.baseRate? pair with
  | some base =>
      rw [hdirect] at h
      cases h
      exact baseRate?_pair hdirect
  | none =>
      rw [hdirect] at h
      simp only at h
      split_ifs at h
      obtain ⟨base, hbase, rfl⟩ := Option.map_eq_some_iff.mp h
      exact baseRate?_pair hbase

theorem bridge?_eq_some_iff {pair : CurrencyPair} {middle : Currency} {route : Route} :
    s.bridge? pair middle = some route ↔
      ∃ first second, route = .bridge first second ∧ middle ≠ pair.source ∧ middle ≠ pair.target ∧
        s.leg? ⟨pair.source, middle⟩ = some first ∧ s.leg? ⟨middle, pair.target⟩ = some second := by
  unfold bridge?
  split_ifs with hmiddle
  · constructor
    · intro h
      cases h
    · rintro ⟨first, second, -, hsource, htarget, -, -⟩
      exact absurd hmiddle (not_or.mpr ⟨hsource, htarget⟩)
  · obtain ⟨hsource, htarget⟩ := not_or.mp hmiddle
    constructor
    · intro h
      obtain ⟨first, hfirst, h⟩ := Option.bind_eq_some_iff.mp h
      obtain ⟨second, hsecond, h⟩ := Option.bind_eq_some_iff.mp h
      cases h
      exact ⟨first, second, rfl, hsource, htarget, hfirst, hsecond⟩
    · rintro ⟨first, second, rfl, -, -, hfirst, hsecond⟩
      rw [hfirst, hsecond]
      rfl

theorem baseRate?_of_route? {pair : CurrencyPair} {route : Route} (h : s.route? pair = some route) :
    ∀ leg ∈ route.legs, s.baseRate? leg.base.pair = some leg.base := by
  unfold route? at h
  split_ifs at h
  cases hleg : s.leg? pair with
  | some leg =>
      rw [hleg] at h
      cases h
      intro other hother
      rw [List.mem_singleton.mp hother]
      exact baseRate?_of_leg? hleg
  | none =>
      rw [hleg] at h
      obtain ⟨middle, -, hbridge⟩ := List.exists_of_findSome?_eq_some h
      obtain ⟨first, second, rfl, -, -, hfirst, hsecond⟩ := bridge?_eq_some_iff.mp hbridge
      intro leg hmem
      rcases List.mem_pair.mp hmem with rfl | rfl
      · exact baseRate?_of_leg? hfirst
      · exact baseRate?_of_leg? hsecond

namespace IsValid

variable (h : s.IsValid)
include h

theorem accepts_of_route? {pair : CurrencyPair} {route : Route} (hroute : s.route? pair = some route) :
    ∀ leg ∈ route.legs, Accepts leg.base := fun leg hleg =>
  h.accepts leg.base (List.mem_of_find?_eq_some (baseRate?_of_route? hroute leg hleg))

theorem isSpread_spreadOf {pair : CurrencyPair} {route : Route}
    (hroute : s.route? pair = some route) : IsSpread (s.spreadOf route) := by
  have haccepts := h.accepts_of_route? hroute
  cases route with
  | bridge first second => exact h.defaultSpread
  | single leg =>
      have hleg := haccepts leg (List.mem_singleton.mpr rfl)
      rw [spreadOf]
      cases hspread : leg.base.spreadPercent with
      | none => exact h.defaultSpread
      | some spread => exact hleg.spread spread hspread

end IsValid

end MarketSettings

end Bureau
