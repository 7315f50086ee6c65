import Bureau.Proofs.Provider.Readings
import Bureau.Proofs.Provider.Routes
import Bureau.Proofs.Rate.Precision

/-!
Derived prices against exact arithmetic. For ordinary base rates and spreads, and offsets up to a half,
every pair with a route has a price, and that price agrees with the exact one to twelve digits,
whichever way it is derived. So a pair and its inverse cancel out and a bridge is the product of its
legs.
-/

set_option autoImplicit false

namespace Bureau

open Attempt Decimal

/-- Settings with base rates, spreads and steps of an ordinary size. -/
structure MarketSettings.IsOrdinaryMarket (s : MarketSettings) : Prop where
  mid : ∀ base ∈ s.baseRates, 1 / 10 ^ 4 ≤ base.mid.value ∧ base.mid.value ≤ 10 ^ 5
  spread : ∀ base ∈ s.baseRates, ∀ spread, base.spreadPercent = some spread →
    MarketSettings.IsOrdinary spread
  defaultSpread : MarketSettings.IsOrdinary s.defaultSpread
  maxStep : s.drift.maxStep.value ≤ 1

namespace MarketSettings.IsOrdinaryMarket

variable {s : MarketSettings} (h : s.IsOrdinaryMarket) {pair : CurrencyPair} {route : Route}
include h

theorem spreadOf (hroute : s.route? pair = some route) : IsOrdinary (s.spreadOf route) := by
  cases route with
  | bridge first second => exact h.defaultSpread
  | single leg =>
      have hbase := baseRate?_of_route? hroute leg (List.mem_singleton.mpr rfl)
      rw [MarketSettings.spreadOf]
      cases hspread : leg.base.spreadPercent with
      | none => exact h.defaultSpread
      | some spread => exact h.spread leg.base (List.mem_of_find?_eq_some hbase) spread hspread

end MarketSettings.IsOrdinaryMarket

private theorem MarketSettings.isOrdinaryMarket_iff {s : MarketSettings} :
    s.IsOrdinaryMarket ↔
      (∀ base ∈ s.baseRates, (⟨false, 1, 4, by decide, by decide⟩ : Decimal) ≤ base.mid ∧
        base.mid ≤ ⟨false, 100000, 0, by decide, by decide⟩ ∧
          ∀ spread ∈ base.spreadPercent,
            (⟨false, 1, 2, by decide, by decide⟩ : Decimal) ≤ spread ∧
              spread ≤ ⟨false, 10, 0, by decide, by decide⟩) ∧
      ((⟨false, 1, 2, by decide, by decide⟩ : Decimal) ≤ s.defaultSpread ∧
        s.defaultSpread ≤ ⟨false, 10, 0, by decide, by decide⟩) ∧ s.drift.maxStep ≤ one := by
  have hlow : value ⟨false, 1, 4, by decide, by decide⟩ = 1 / 10 ^ 4 := by
    norm_num [value, coefficient]
  have hhigh : value ⟨false, 100000, 0, by decide, by decide⟩ = 10 ^ 5 := by
    norm_num [value, coefficient]
  simp only [← MarketSettings.isOrdinary_iff, Option.mem_def]
  simp only [Decimal.le_iff, hlow, hhigh, value_one]
  constructor
  · intro h
    exact ⟨fun base hbase => ⟨(h.mid base hbase).1, (h.mid base hbase).2, h.spread base hbase⟩,
      h.defaultSpread, h.maxStep⟩
  · rintro ⟨hbases, hdefault, hstep⟩
    exact ⟨fun base hbase => ⟨(hbases base hbase).1, (hbases base hbase).2.1⟩,
      fun base hbase => (hbases base hbase).2.2, hdefault, hstep⟩

/-! ### Exact prices -/

def Leg.exact (offset : CurrencyPair → ℚ) : Leg → ℚ
  | .direct base => base.mid.value * (1 + offset base.pair)
  | .inverse base => 1 / (base.mid.value * (1 + offset base.pair))

def Route.exact (offset : CurrencyPair → ℚ) : Route → ℚ
  | .single leg => leg.exact offset
  | .bridge first second => first.exact offset * second.exact offset

section Exact

variable {offset offset' : CurrencyPair → ℚ}

private theorem Leg.exact_congr {leg : Leg} (h : offset leg.base.pair = offset' leg.base.pair) :
    leg.exact offset = leg.exact offset' := by
  cases leg <;> simp only [Leg.exact, Leg.base] at h ⊢ <;> rw [h]

private theorem Route.exact_congr {route : Route}
    (h : ∀ leg ∈ route.legs, offset leg.base.pair = offset' leg.base.pair) :
    route.exact offset = route.exact offset' := by
  cases route with
  | single leg => exact Leg.exact_congr (h leg (by simp [Route.legs]))
  | bridge first second =>
      rw [Route.exact, Leg.exact_congr (h first (by simp [Route.legs])),
        Leg.exact_congr (h second (by simp [Route.legs])), Route.exact]

private theorem Leg.exact_reverse (leg : Leg) : leg.reverse.exact offset = 1 / leg.exact offset := by
  cases leg with
  | direct base => rfl
  | inverse base => exact (one_div_one_div _).symm

private theorem Route.exact_reverse (route : Route) :
    route.reverse.exact offset = 1 / route.exact offset := by
  cases route with
  | single leg => exact leg.exact_reverse
  | bridge first second =>
      rw [Route.reverse, Route.exact, Leg.exact_reverse, Leg.exact_reverse, Route.exact,
        one_div_mul_one_div, mul_comm]

/-- A base rate of an ordinary size, moved by a half at most. -/
structure IsMovable (offset : CurrencyPair → ℚ) (base : BaseRate) : Prop where
  mid_ge : 1 / 10 ^ 4 ≤ base.mid.value
  mid_le : base.mid.value ≤ 10 ^ 5
  offset_le : |offset base.pair| ≤ 1 / 2

theorem IsMovable.bounds {base : BaseRate} (h : IsMovable offset base) :
    5 / 10 ^ 5 ≤ base.mid.value * (1 + offset base.pair) ∧
      base.mid.value * (1 + offset base.pair) ≤ 15 * 10 ^ 4 := by
  obtain ⟨hlow, hhigh⟩ := abs_le.mp h.offset_le
  have hge := h.mid_ge
  have hle := h.mid_le
  constructor
  · calc (5 / 10 ^ 5 : ℚ) = 1 / 10 ^ 4 * (1 / 2) := by norm_num
      _ ≤ base.mid.value * (1 + offset base.pair) :=
        mul_le_mul hge (by linarith) (by norm_num) (by linarith)
  · calc base.mid.value * (1 + offset base.pair) ≤ 10 ^ 5 * (3 / 2) :=
        mul_le_mul hle (by linarith) (by linarith) (by norm_num)
      _ = 15 * 10 ^ 4 := by norm_num

private theorem Leg.exact_bounds {leg : Leg} (h : IsMovable offset leg.base) :
    6 / 10 ^ 6 ≤ leg.exact offset ∧ leg.exact offset ≤ 2 * 10 ^ 5 := by
  obtain ⟨hlow, hhigh⟩ := h.bounds
  cases leg with
  | direct base =>
      simp only [Leg.base] at hlow hhigh
      exact ⟨by rw [Leg.exact]; linarith, by rw [Leg.exact]; linarith⟩
  | inverse base =>
      simp only [Leg.base] at hlow hhigh
      have hpos : 0 < base.mid.value * (1 + offset base.pair) := by linarith
      rw [Leg.exact, le_div_iff₀ hpos, div_le_iff₀ hpos]
      constructor <;> linarith

private theorem Route.exact_bounds {route : Route} (h : ∀ leg ∈ route.legs, IsMovable offset leg.base) :
    36 / 10 ^ 12 ≤ route.exact offset ∧ route.exact offset ≤ 4 * 10 ^ 10 := by
  cases route with
  | single leg =>
      obtain ⟨hlow, hhigh⟩ := Leg.exact_bounds (h leg (by simp [Route.legs]))
      exact ⟨by rw [Route.exact]; linarith, by rw [Route.exact]; linarith⟩
  | bridge first second =>
      obtain ⟨hlow, hhigh⟩ := Leg.exact_bounds (h first (by simp [Route.legs]))
      obtain ⟨hlow', hhigh'⟩ := Leg.exact_bounds (h second (by simp [Route.legs]))
      rw [Route.exact]
      constructor
      · calc (36 / 10 ^ 12 : ℚ) = 6 / 10 ^ 6 * (6 / 10 ^ 6) := by norm_num
          _ ≤ first.exact offset * second.exact offset :=
            mul_le_mul hlow hlow' (by norm_num) (by linarith)
      · calc first.exact offset * second.exact offset ≤ 2 * 10 ^ 5 * (2 * 10 ^ 5) :=
            mul_le_mul hhigh hhigh' (by linarith) (by norm_num)
          _ = 4 * 10 ^ 10 := by norm_num

end Exact

namespace SimulatedMarket

/-! ### Readings and legs -/

/-- The offset of a pair that a read finds in force, after the step that it takes. -/
def offsetAt (m : SimulatedMarket) (now : Instant) (pair : CurrencyPair) : ℚ :=
  ((m.walk pair now).after? m.settings.drift (m.unit pair) now).elim 0 (·.offset.value)

private theorem offsetAt_withWalk (m : SimulatedMarket) (now : Instant) {pair other : CurrencyPair}
    (hne : pair ≠ other) (w : Walk) :
    (m.withWalk pair w).offsetAt now other = m.offsetAt now other := by
  unfold offsetAt
  rw [walk_withWalk, if_neg hne]
  rfl

/-- A market with ordinary settings, whatever has been asked of it so far. -/
structure IsOrdinary (m : SimulatedMarket) : Prop where
  settings : m.settings.IsOrdinaryMarket
  valid : m.settings.IsValid
  inside : m.IsInside

variable {m m' : SimulatedMarket} {now : Instant}

private theorem Reached.isOrdinary {s : MarketSettings} (h : Reached s m) (hs : s.IsOrdinaryMarket) :
    m.IsOrdinary := by
  obtain ⟨hvalid, rfl, hinside⟩ := h.facts
  exact ⟨hs, hvalid, hinside⟩

theorem IsOrdinary.movesOn (h : m.IsOrdinary) (hmoves : MovesOn m m') : m'.IsOrdinary :=
  ⟨hmoves.settings_eq ▸ h.settings, hmoves.settings_eq ▸ h.valid,
    hmoves.isInside h.valid.drift h.inside⟩

theorem IsOrdinary.exists_reading? (h : m.IsOrdinary) {base : BaseRate}
    (hbase : IsMovable (m.offsetAt now) base) :
    ∃ r, m.reading? now base = some (r, m.withWalk base.pair r.after) ∧
      IsWithin (1 / 10 ^ 22) (base.mid.value * (1 + m.offsetAt now base.pair)) r.mid.value := by
  have hsize := (isInside_iff.mp h.inside base.pair).le
  obtain ⟨w, hw⟩ := exists_after? h.valid.drift (h.settings.maxStep.trans (by norm_num)) hsize now
  have hoffset : m.offsetAt now base.pair = w.offset.value := by rw [offsetAt, hw, Option.elim_some]
  obtain ⟨hlow, hhigh⟩ := hbase.bounds
  have hhalf := hbase.offset_le
  rw [hoffset] at hlow hhigh hhalf ⊢
  have hge := hbase.mid_ge
  have hle := hbase.mid_le
  obtain ⟨mid, hread, hround⟩ := exists_reading?_of_after? hw (hhalf.trans (by norm_num)) (by
    rw [abs_of_nonneg (by linarith)]
    linarith)
  exact ⟨_, hread, (hround.isWithin 6 (by norm_num) (by linarith)).mono (by norm_num) (by linarith)⟩

theorem IsOrdinary.exists_legMid (h : m.IsOrdinary) {leg : Leg}
    (hleg : IsMovable (m.offsetAt now) leg.base) :
    ∃ price w, (legMid now leg).runOn m = (.ok price, m.withWalk leg.base.pair w) ∧
      IsWithin (1 / 10 ^ 21) (leg.exact (m.offsetAt now)) price.value := by
  obtain ⟨r, hr, hnear⟩ := h.exists_reading? hleg
  obtain ⟨hlow, hhigh⟩ := hleg.bounds
  cases leg with
  | direct base =>
      exact ⟨r.mid, r.after, runOn_legMid_eq_ok.mpr ⟨r, hr, rfl⟩,
        hnear.mono (by norm_num) (by linarith)⟩
  | inverse base =>
      simp only [Leg.base] at hnear hlow hhigh
      have hge := hnear.ge
      have hle := hnear.le
      have hpos : 0 < r.mid.value := by linarith
      have hexact : 0 < base.mid.value * (1 + m.offsetAt now base.pair) := by linarith
      have hquotient : |one.value / r.mid.value| < 2 ^ 96 - 1 / 2 := by
        rw [value_one, abs_of_pos (by positivity), div_lt_iff₀ hpos]
        linarith
      obtain ⟨price, hdiv⟩ := exists_div? hpos.ne' hquotient
      have hround := rounds_div? hdiv
      rw [value_one] at hround
      have hsix : 1 / 10 ^ 6 ≤ 1 / r.mid.value := one_div_le_one_div_of_le hpos (by linarith)
      have hboth := (hnear.one_div (by norm_num) hexact).trans
        (hround.isWithin 6 (by norm_num) hsix) (by norm_num)
      exact ⟨price, r.after, runOn_legMid_eq_ok.mpr ⟨r, hr, hdiv⟩,
        hboth.mono (by norm_num) (by positivity)⟩

/-! ### Routes and rates -/

theorem IsOrdinary.exists_routeMid (h : m.IsOrdinary) {pair : CurrencyPair} {route : Route}
    (hroute : m.settings.route? pair = some route)
    (hlegs : ∀ leg ∈ route.legs, IsMovable (m.offsetAt now) leg.base) :
    ∃ mid m', (routeMid now route).runOn m = (.ok mid, m') ∧
      IsWithin (1 / 10 ^ 16) (route.exact (m.offsetAt now)) mid.value := by
  cases route with
  | single leg =>
      have hleg := hlegs leg (by simp [Route.legs])
      obtain ⟨price, w, hrun, hnear⟩ := h.exists_legMid hleg
      have hpos := (Leg.exact_bounds hleg).1
      exact ⟨price, _, hrun, hnear.mono (by norm_num) (le_trans (by norm_num) hpos)⟩
  | bridge first second =>
      have hfirst := hlegs first (by simp [Route.legs])
      have hsecond := hlegs second (by simp [Route.legs])
      obtain ⟨a, v, hruna, hneara⟩ := h.exists_legMid hfirst
      -- the second leg is read from another base rate, so the first has not moved it
      have hother : (m.withWalk first.base.pair v).offsetAt now second.base.pair =
          m.offsetAt now second.base.pair :=
        m.offsetAt_withWalk now (MarketSettings.base_pair_ne_of_bridge hroute) v
      have hmoves : MovesOn m (m.withWalk first.base.pair v) := by
        have hmoved := (m.reads_legMid first now).movesOn
        rwa [hruna] at hmoved
      have hsecond' : IsMovable ((m.withWalk first.base.pair v).offsetAt now) second.base :=
        ⟨hsecond.mid_ge, hsecond.mid_le, by rw [hother]; exact hsecond.offset_le⟩
      obtain ⟨b, w, hrunb, hnearb⟩ := (h.movesOn hmoves).exists_legMid hsecond'
      rw [Leg.exact_congr hother] at hnearb
      obtain ⟨hlow, hhigh⟩ := Route.exact_bounds hlegs
      rw [Route.exact] at hlow hhigh
      have hproduct := hneara.mul hnearb (le_trans (by norm_num) (Leg.exact_bounds hfirst).1)
        (le_trans (by norm_num) (Leg.exact_bounds hsecond).1)
      have hge := hproduct.ge
      have hle := hproduct.le
      obtain ⟨mid, hmid⟩ := exists_mul? (a := a) (b := b) (by
        rw [abs_of_nonneg (by linarith)]
        linarith)
      have hround := (rounds_mul? hmid).isWithin 11 (by norm_num) (by linarith)
      have hrun : (routeMid now (.bridge first second)).runOn m =
          (.ok mid, (m.withWalk first.base.pair v).withWalk second.base.pair w) := by
        unfold routeMid
        rw [runOn_bind_ok hruna, runOn_bind_ok hrunb, hmid]
        rfl
      exact ⟨mid, _, hrun, (hproduct.trans hround (by norm_num)).mono (by norm_num)
        (le_trans (by norm_num) hlow)⟩

/-- A rate is quoted and agrees with the exact price, unless its validity leaves the calendar. -/
theorem IsOrdinary.exists_price (h : m.IsOrdinary) (now : Instant) {pair : CurrencyPair} {route : Route}
    (hroute : m.settings.route? pair = some route)
    (hoffset : ∀ leg ∈ route.legs, |m.offsetAt now leg.base.pair| ≤ 1 / 2) :
    (now.add? m.settings.validity = none ∧
      ((price pair (.ok now)).runOn m).1 = .error .calendar) ∨
    ∃ rate, ((price pair (.ok now)).runOn m).1 = .ok (.ok rate) ∧
      IsWithin (1 / 10 ^ 16) (route.exact (m.offsetAt now)) rate.mid.value ∧
      rate.IsNear (route.exact (m.offsetAt now)) (m.settings.spreadOf route).value := by
  have hlegs : ∀ leg ∈ route.legs, IsMovable (m.offsetAt now) leg.base := by
    intro leg hleg
    have hbase := MarketSettings.baseRate?_of_route? hroute leg hleg
    obtain ⟨hge, hle⟩ := h.settings.mid leg.base (List.mem_of_find?_eq_some hbase)
    exact ⟨hge, hle, hoffset leg hleg⟩
  obtain ⟨hlow, hhigh⟩ := Route.exact_bounds hlegs
  obtain ⟨mid, m', hrun, hnear⟩ := h.exists_routeMid hroute hlegs
  have hge := hnear.ge
  have hle := hnear.le
  have hspread := h.settings.spreadOf hroute
  have hprice : ((price pair (.ok now)).runOn m).1 =
      (Rate.make pair mid (m.settings.spreadOf route) m.settings.validity m.settings.name now).map
        .ok := by
    rw [runOn_price, hroute]
    simp only [hrun, andThen_ok]
  rw [hprice]
  rcases Rate.exists_make_of_ordinary pair m.settings.validity m.settings.name now
    (show 3 / 10 ^ 11 ≤ mid.value by linarith) (by linarith) hspread with
    ⟨hnone, hmake⟩ | ⟨rate, hmake, rfl, hwidth⟩
  · left
    rw [hmake]
    exact ⟨hnone, rfl⟩
  · right
    rw [hmake]
    exact ⟨rate, rfl, hnear, Rate.isNear_of_isWithin (by linarith) (by linarith) hspread.ge
      hspread.le (by linarith) hnear hwidth⟩

/-- A rate that a market with these settings quotes while the offsets it is made of are as given. -/
def QuotesAt (s : MarketSettings) (offset : CurrencyPair → ℚ) (pair : CurrencyPair) (rate : Rate) :
    Prop :=
  ∃ m now, Reached s m ∧ ((price pair (.ok now)).runOn m).1 = .ok (.ok rate) ∧
    ∀ base ∈ basesOf s pair, m.offsetAt now base.pair = offset base.pair

private theorem QuotesAt.exists_route {s : MarketSettings} {offset : CurrencyPair → ℚ}
    {pair : CurrencyPair} {rate : Rate} (h : QuotesAt s offset pair rate) :
    ∃ route, s.route? pair = some route := by
  obtain ⟨m, now, hreached, hquoted, -⟩ := h
  obtain ⟨-, rfl, -⟩ := hreached.facts
  cases hroute : m.settings.route? pair with
  | some route => exact ⟨route, rfl⟩
  | none =>
      rw [runOn_price, hroute] at hquoted
      cases hquoted

theorem QuotesAt.isWithin {s : MarketSettings} {offset : CurrencyPair → ℚ} {pair : CurrencyPair}
    {route : Route} {rate : Rate} (h : QuotesAt s offset pair rate) (hs : s.IsOrdinaryMarket)
    (hoffset : ∀ pair, |offset pair| ≤ 1 / 2) (hroute : s.route? pair = some route) :
    IsWithin (1 / 10 ^ 16) (route.exact offset) rate.mid.value ∧ 0 < route.exact offset := by
  obtain ⟨m, now, hreached, hquoted, hsame⟩ := h
  obtain ⟨-, rfl, -⟩ := hreached.facts
  have hlegs : ∀ leg ∈ route.legs, m.offsetAt now leg.base.pair = offset leg.base.pair := by
    intro leg hleg
    refine hsame leg.base ?_
    rw [basesOf, hroute]
    exact List.mem_map_of_mem hleg
  have hordinary := hreached.isOrdinary hs
  have hmovable : ∀ leg ∈ route.legs, IsMovable offset leg.base := by
    intro leg hleg
    have hbase := MarketSettings.baseRate?_of_route? hroute leg hleg
    obtain ⟨hge, hle⟩ := hs.mid leg.base (List.mem_of_find?_eq_some hbase)
    exact ⟨hge, hle, hoffset _⟩
  have hpos := (Route.exact_bounds hmovable).1
  rcases hordinary.exists_price now hroute
    (fun leg hleg => by rw [hlegs leg hleg]; exact hoffset _) with
    ⟨-, herror⟩ | ⟨other, hother, hnear, -⟩
  · rw [hquoted] at herror
    cases herror
  · rw [hquoted] at hother
    cases hother
    rw [Route.exact_congr hlegs] at hnear
    exact ⟨hnear, by linarith⟩

/-- Prices agree with exact arithmetic: every pair with a route is quoted as the exact product or
quotient of its base rates, a bridge as the product of its legs' own mids, and where base rates are
inverted, and there is none in both directions, a pair and its inverse cancel out. -/
theorem prices_agree_with_exact {s : MarketSettings} (hs : s.IsOrdinaryMarket) :
    (∀ m now pair route, Reached s m → s.route? pair = some route →
      (∀ leg ∈ route.legs, |m.offsetAt now leg.base.pair| ≤ 1 / 2) →
      (now.add? s.validity = none ∧ ((price pair (.ok now)).runOn m).1 = .error .calendar) ∨
      ∃ rate, ((price pair (.ok now)).runOn m).1 = .ok (.ok rate) ∧
        rate.IsNear (route.exact (m.offsetAt now)) (s.spreadOf route).value) ∧
    ∀ offset : CurrencyPair → ℚ, (∀ pair, |offset pair| ≤ 1 / 2) →
      (∀ pair first second rate a b, s.route? pair = some (.bridge first second) →
        QuotesAt s offset pair rate → QuotesAt s offset first.pair a →
        QuotesAt s offset second.pair b →
          IsWithin (4 / 10 ^ 12) (a.mid.value * b.mid.value) rate.mid.value) ∧
      (s.allowInversion = true →
        (∀ base ∈ s.baseRates, s.baseRate? base.pair.inverse = none) →
        ∀ pair rate back, QuotesAt s offset pair rate → QuotesAt s offset pair.inverse back →
          IsWithin (4 / 10 ^ 12) 1 (rate.mid.value * back.mid.value)) := by
  refine ⟨?_, fun offset hoffset => ⟨?_, ?_⟩⟩
  · intro m now pair route hreached hroute hsmall
    have hordinary := hreached.isOrdinary hs
    obtain ⟨-, rfl, -⟩ := hreached.facts
    rcases hordinary.exists_price now hroute hsmall with hcalendar | ⟨rate, hrate, -, hnear⟩
    · exact .inl hcalendar
    · exact .inr ⟨rate, hrate, hnear⟩
  · intro pair first second rate a b hroute hrate ha hb
    obtain ⟨hfirst, hsecond⟩ := MarketSettings.route?_of_bridge hroute
    obtain ⟨hnear, -⟩ := hrate.isWithin hs hoffset hroute
    obtain ⟨hneara, hposa⟩ := ha.isWithin hs hoffset hfirst
    obtain ⟨hnearb, hposb⟩ := hb.isWithin hs hoffset hsecond
    have hproduct := hneara.mul hnearb hposa.le hposb.le
    have hpos := mul_nonneg hposa.le hposb.le
    have hmids : 0 ≤ a.mid.value * b.mid.value :=
      le_trans (mul_nonneg (by norm_num) hpos) hproduct.ge
    exact (hnear.of_common hproduct (by norm_num) (by norm_num) (by norm_num) hpos).mono
      (by norm_num) hmids
  · intro hinversion hone pair rate back hrate hback
    have hinverse := MarketSettings.route?_inverse hinversion hone pair
    obtain ⟨route, hroute⟩ := hrate.exists_route
    rw [hroute, Option.map_some] at hinverse
    obtain ⟨hnear, hpos⟩ := hrate.isWithin hs hoffset hroute
    obtain ⟨hback, hpos'⟩ := hback.isWithin hs hoffset hinverse
    have hproduct := hnear.mul hback hpos.le hpos'.le
    rw [Route.exact_reverse, mul_one_div_cancel hpos.ne'] at hproduct
    exact hproduct.mono (by norm_num) zero_le_one

/-! ### Fresh markets -/

private theorem offsetAt_fresh (hempty : m.walks = ∅) (now : Instant) (pair : CurrencyPair) :
    m.offsetAt now pair = 0 := by
  rw [offsetAt, walk_fresh hempty, Walk.after?_of_not_due rfl]
  exact value_zero

private theorem reached_fresh {s : MarketSettings} (hvalid : s.validate = .ok ()) :
    Reached s ⟨s, s.seed.getD 0, ∅⟩ := .make (make_of_validate hvalid 0)

private theorem exists_quote_fresh {s : MarketSettings} (hvalid : s.validate = .ok ())
    (hs : s.IsOrdinaryMarket) {now : Instant} (hcalendar : now.add? s.validity ≠ none)
    {pair : CurrencyPair} {route : Route} (hroute : s.route? pair = some route) :
    ∃ rate, QuotesAt s (fun _ => 0) pair rate ∧
      IsWithin (1 / 10 ^ 16) (route.exact fun _ => 0) rate.mid.value := by
  have hreached := reached_fresh hvalid
  have hzero : ∀ pair, (⟨s, s.seed.getD 0, ∅⟩ : SimulatedMarket).offsetAt now pair = 0 :=
    offsetAt_fresh rfl now
  rcases (hreached.isOrdinary hs).exists_price now hroute
    (fun leg _ => by rw [hzero, abs_zero]; norm_num) with ⟨hnone, -⟩ | ⟨rate, hrate, hnear, -⟩
  · exact absurd hnone hcalendar
  · have hsame : route.exact (offsetAt ⟨s, s.seed.getD 0, ∅⟩ now) = route.exact fun _ => 0 :=
      Route.exact_congr fun leg _ => hzero leg.base.pair
    rw [hsame] at hnear
    exact ⟨rate, ⟨_, now, hreached, hrate, fun base _ => hzero base.pair⟩, hnear⟩

/-- In the standard market a euro buys 60.977 pesos over the dollar, which is the product of its legs
and cancels out with the way back. -/
theorem prices_agree_with_exact_euro :
    let euro : CurrencyPair := ⟨⟨"EUR"⟩, ⟨"PHP"⟩⟩
    let m : SimulatedMarket := ⟨.standard, 0, ∅⟩
    let now : Instant := ⟨0, by decide⟩
    ∃ rate back a b, ((price euro (.ok now)).runOn m).1 = .ok (.ok rate) ∧
      QuotesAt .standard (fun _ => 0) euro.inverse back ∧
      QuotesAt .standard (fun _ => 0) ⟨⟨"EUR"⟩, ⟨"USD"⟩⟩ a ∧
      QuotesAt .standard (fun _ => 0) ⟨⟨"USD"⟩, ⟨"PHP"⟩⟩ b ∧
      rate.IsNear (1.085 * 56.2) 0.5 ∧
      IsWithin (4 / 10 ^ 12) (a.mid.value * b.mid.value) rate.mid.value ∧
      IsWithin (4 / 10 ^ 12) 1 (rate.mid.value * back.mid.value) := by
  intro euro m now
  let left : BaseRate := ⟨⟨⟨"EUR"⟩, ⟨"USD"⟩⟩, ⟨false, 10850, 4, by decide, by decide⟩,
    some ⟨false, 3, 1, by decide, by decide⟩⟩
  let right : BaseRate := ⟨⟨⟨"USD"⟩, ⟨"PHP"⟩⟩, ⟨false, 5620, 2, by decide, by decide⟩,
    some ⟨false, 8, 1, by decide, by decide⟩⟩
  have hvalid : MarketSettings.standard.validate = .ok () := by decide +kernel
  have hordinary : MarketSettings.standard.IsOrdinaryMarket :=
    MarketSettings.isOrdinaryMarket_iff.mpr (by decide +kernel)
  have hcalendar : now.add? MarketSettings.standard.validity ≠ none := by decide +kernel
  have hroute : MarketSettings.standard.route? euro =
      some (.bridge (.direct left) (.direct right)) := by decide +kernel
  have hback : MarketSettings.standard.route? euro.inverse =
      some (.bridge (.inverse right) (.inverse left)) := by decide +kernel
  obtain ⟨hleft, hright⟩ := MarketSettings.route?_of_bridge hroute
  have hreached : Reached .standard m := reached_fresh hvalid
  have hzero : ∀ pair, m.offsetAt now pair = 0 := offsetAt_fresh rfl now
  obtain ⟨hquoted, hmore⟩ := prices_agree_with_exact hordinary
  obtain ⟨hlegs, hinverse⟩ := hmore (fun _ => 0) fun _ => by norm_num
  obtain ⟨back, hbackquoted, -⟩ := exists_quote_fresh hvalid hordinary hcalendar hback
  obtain ⟨a, ha, -⟩ := exists_quote_fresh hvalid hordinary hcalendar hleft
  obtain ⟨b, hb, -⟩ := exists_quote_fresh hvalid hordinary hcalendar hright
  rcases hquoted m now euro _ hreached hroute
    (fun leg _ => by rw [hzero, abs_zero]; norm_num) with ⟨hnone, -⟩ | ⟨rate, hrate, hnear⟩
  · exact absurd hnone hcalendar
  · have hrate' : QuotesAt .standard (fun _ => 0) euro rate :=
      ⟨m, now, hreached, hrate, fun base _ => hzero base.pair⟩
    have hexact : Route.exact (m.offsetAt now) (.bridge (.direct left) (.direct right)) =
        1.085 * 56.2 := by
      norm_num [Route.exact, Leg.exact, hzero, left, right, value, coefficient]
    have hspread : (MarketSettings.standard.spreadOf
        (.bridge (.direct left) (.direct right))).value = 0.5 := by
      norm_num [MarketSettings.spreadOf, MarketSettings.standard, half, value, coefficient]
    rw [hexact, hspread] at hnear
    exact ⟨rate, back, a, b, hrate, hbackquoted, ha, hb, hnear,
      hlegs euro _ _ rate a b hroute hrate' ha hb,
      hinverse rfl (by decide +kernel) euro rate back hrate' hbackquoted⟩

/-- Without inversion a pair and its inverse need not cancel out, though no base rate stands in both
directions: two units of B for one of A, and fifteen units of A for one of B over X. -/
theorem not_cancelled_without_inversion :
    let percent : Option Decimal := some Decimal.one
    let s : MarketSettings :=
      { MarketSettings.standard with
        baseRates := [⟨⟨⟨"A"⟩, ⟨"B"⟩⟩, ⟨false, 2, 0, by decide, by decide⟩, percent⟩,
          ⟨⟨⟨"B"⟩, ⟨"X"⟩⟩, ⟨false, 3, 0, by decide, by decide⟩, percent⟩,
          ⟨⟨⟨"X"⟩, ⟨"A"⟩⟩, ⟨false, 5, 0, by decide, by decide⟩, percent⟩]
        bridges := [⟨"X"⟩]
        allowInversion := false
        seed := some 1
        drift := { Drift.standard with enabled := false } }
    s.IsOrdinaryMarket ∧ (∀ base ∈ s.baseRates, s.baseRate? base.pair.inverse = none) ∧
      ∃ rate back, QuotesAt s (fun _ => 0) ⟨⟨"A"⟩, ⟨"B"⟩⟩ rate ∧
        QuotesAt s (fun _ => 0) ⟨⟨"B"⟩, ⟨"A"⟩⟩ back ∧
        ¬ IsWithin (4 / 10 ^ 12) 1 (rate.mid.value * back.mid.value) := by
  intro percent s
  let there : BaseRate := ⟨⟨⟨"A"⟩, ⟨"B"⟩⟩, ⟨false, 2, 0, by decide, by decide⟩, percent⟩
  let left : BaseRate := ⟨⟨⟨"B"⟩, ⟨"X"⟩⟩, ⟨false, 3, 0, by decide, by decide⟩, percent⟩
  let right : BaseRate := ⟨⟨⟨"X"⟩, ⟨"A"⟩⟩, ⟨false, 5, 0, by decide, by decide⟩, percent⟩
  have hvalid : s.validate = .ok () := by decide +kernel
  have hordinary : s.IsOrdinaryMarket := MarketSettings.isOrdinaryMarket_iff.mpr (by decide +kernel)
  have hcalendar : (⟨0, by decide⟩ : Instant).add? s.validity ≠ none := by decide +kernel
  have hroute : s.route? ⟨⟨"A"⟩, ⟨"B"⟩⟩ = some (.single (.direct there)) := by decide +kernel
  have hback : s.route? ⟨⟨"B"⟩, ⟨"A"⟩⟩ = some (.bridge (.direct left) (.direct right)) := by
    decide +kernel
  obtain ⟨rate, hrate, hnear⟩ := exists_quote_fresh hvalid hordinary hcalendar hroute
  obtain ⟨back, hbackquoted, hnear'⟩ := exists_quote_fresh hvalid hordinary hcalendar hback
  have hexact : Route.exact (fun _ => 0) (.single (.direct there)) = 2 := by
    norm_num [Route.exact, Leg.exact, there, value, coefficient]
  have hexact' : Route.exact (fun _ => 0) (.bridge (.direct left) (.direct right)) = 15 := by
    norm_num [Route.exact, Leg.exact, left, right, value, coefficient]
  rw [hexact] at hnear
  rw [hexact'] at hnear'
  have hproduct := (hnear.mul hnear' (by norm_num) (by norm_num)).ge
  refine ⟨hordinary, by decide +kernel, rate, back, hrate, hbackquoted, fun hone => ?_⟩
  have hle := hone.le
  linarith

end SimulatedMarket

end Bureau
