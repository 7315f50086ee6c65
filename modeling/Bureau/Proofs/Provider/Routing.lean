import Bureau.Proofs.Provider.Routes
import Bureau.Provider.Simulated

/-!
Which pairs are priced, and over which base rates. The search for a route is compared with a description
of the routes that a pair may take: it finds the one that comes first in order of preference, and finds
none only if there is none. Where base rates are inverted, the way back is that of the pair in reverse,
but for legs with a base rate in each direction.
-/

set_option autoImplicit false

namespace Bureau

namespace MarketSettings

/-! ### Base rates that are accepted -/

private theorem pairs_of_validateRates {seen : List CurrencyPair} {rates : List BaseRate}
    (h : validateRates seen rates = .ok ()) :
    (rates.map (·.pair)).Nodup ∧ ∀ base ∈ rates, base.pair ∉ seen := by
  induction rates generalizing seen with
  | nil => exact ⟨List.nodup_nil, nofun⟩
  | cons first rest ih =>
      unfold validateRates at h
      split_ifs at h with hidentity hmid hspread hseen
      obtain ⟨hnodup, hfresh⟩ := ih h
      refine ⟨List.nodup_cons.mpr ⟨?_, hnodup⟩, ?_⟩
      · intro hmem
        obtain ⟨base, hbase, hpair⟩ := List.mem_map.mp hmem
        exact hfresh base hbase (hpair ▸ List.mem_cons_self)
      · intro base hbase
        rcases List.mem_cons.mp hbase with rfl | hrest
        · exact hseen
        · exact fun hmem => hfresh base hrest (List.mem_cons_of_mem _ hmem)

private theorem nodup_of_validate {s : MarketSettings} (h : s.validate = .ok ()) :
    (s.baseRates.map (·.pair)).Nodup := by
  cases hrates : validateRates [] s.baseRates with
  | error reason =>
      unfold validate at h
      rw [hrates] at h
      simp only [throw, throwThe, MonadExceptOf.throw, bind, Except.bind] at h
      split_ifs at h
  | ok _ => exact (pairs_of_validateRates hrates).1

/-! ### Routes that a pair may take -/

variable (s : MarketSettings)

def HasBase (pair : CurrencyPair) : Prop := ∃ base ∈ s.baseRates, base.pair = pair

/-- A pair can be priced over one base rate, that of the pair or, if allowed, that of its inverse. -/
def HasLeg (pair : CurrencyPair) : Prop :=
  s.HasBase pair ∨ (s.allowInversion = true ∧ s.HasBase pair.inverse)

/-- A pair can be priced over a third currency. -/
structure Joins (pair : CurrencyPair) (middle : Currency) : Prop where
  ne_source : middle ≠ pair.source
  ne_target : middle ≠ pair.target
  first : s.HasLeg ⟨pair.source, middle⟩
  second : s.HasLeg ⟨middle, pair.target⟩

/-- The leg that a pair takes: that of its own base rate before that of its inverse. -/
inductive LegFor (pair : CurrencyPair) : Leg → Prop
  | direct {base : BaseRate} (hbase : base ∈ s.baseRates) (hpair : base.pair = pair) :
      LegFor pair (.direct base)
  | inverse {base : BaseRate} (hown : ¬ s.HasBase pair) (hallowed : s.allowInversion = true)
      (hbase : base ∈ s.baseRates) (hpair : base.pair = pair.inverse) : LegFor pair (.inverse base)

/-- The route that a pair of two currencies takes: a single leg before a bridge, and the bridge over the
first of the bridge currencies that join it. -/
inductive RouteFor (pair : CurrencyPair) : Route → Prop
  | single {leg : Leg} (hends : pair.source ≠ pair.target) (hleg : s.LegFor pair leg) :
      RouteFor pair (.single leg)
  | bridge {before after : List Currency} {middle : Currency} {first second : Leg}
      (hends : pair.source ≠ pair.target) (hnone : ¬ s.HasLeg pair)
      (hbridges : s.bridges = before ++ middle :: after)
      (hskipped : ∀ other ∈ before, ¬ s.Joins pair other)
      (hsource : middle ≠ pair.source) (htarget : middle ≠ pair.target)
      (hfirst : s.LegFor ⟨pair.source, middle⟩ first)
      (hsecond : s.LegFor ⟨middle, pair.target⟩ second) : RouteFor pair (.bridge first second)

variable {s} {pair : CurrencyPair} {leg : Leg} {route : Route}

private theorem baseRate?_eq_none_iff : s.baseRate? pair = none ↔ ¬ s.HasBase pair := by
  unfold baseRate? HasBase
  rw [List.find?_eq_none]
  simp

section Accepted

variable (hnodup : (s.baseRates.map (·.pair)).Nodup)
include hnodup

private theorem baseRate?_eq_some_iff {base : BaseRate} :
    s.baseRate? pair = some base ↔ base ∈ s.baseRates ∧ base.pair = pair := by
  constructor
  · exact fun h => ⟨List.mem_of_find?_eq_some h, pair_of_baseRate? h⟩
  · rintro ⟨hbase, hpair⟩
    cases hfind : s.baseRate? pair with
    | none => exact absurd ⟨base, hbase, hpair⟩ (baseRate?_eq_none_iff.mp hfind)
    | some other =>
        have hother : other.pair = base.pair := (pair_of_baseRate? hfind).trans hpair.symm
        rw [List.inj_on_of_nodup_map hnodup (List.mem_of_find?_eq_some hfind) hbase hother]

private theorem leg?_eq_some_iff : s.leg? pair = some leg ↔ s.LegFor pair leg := by
  constructor
  · intro h
    unfold leg? at h
    cases hown : s.baseRate? pair with
    | some base =>
        rw [hown] at h
        cases h
        obtain ⟨hbase, hpair⟩ := (baseRate?_eq_some_iff hnodup).mp hown
        exact .direct hbase hpair
    | none =>
        rw [hown] at h
        simp only at h
        split_ifs at h with hallowed
        obtain ⟨base, hother, rfl⟩ := Option.map_eq_some_iff.mp h
        obtain ⟨hbase, hpair⟩ := (baseRate?_eq_some_iff hnodup).mp hother
        exact .inverse (baseRate?_eq_none_iff.mp hown) hallowed hbase hpair
  · intro h
    cases h with
    | direct hbase hpair =>
        rw [leg?, (baseRate?_eq_some_iff hnodup).mpr ⟨hbase, hpair⟩]
    | inverse hown hallowed hbase hpair =>
        rw [leg?, baseRate?_eq_none_iff.mpr hown]
        simp only [if_pos hallowed, (baseRate?_eq_some_iff hnodup).mpr ⟨hbase, hpair⟩,
          Option.map_some]

end Accepted

private theorem leg?_isSome_iff : (s.leg? pair).isSome ↔ s.HasLeg pair := by
  have hbase : ∀ p, (s.baseRate? p).isSome ↔ s.HasBase p := fun p => by
    rw [← not_iff_not, Option.not_isSome_iff_eq_none, baseRate?_eq_none_iff]
  unfold HasLeg
  rw [← hbase, ← hbase, leg?]
  cases s.baseRate? pair with
  | some base => simp
  | none => cases s.allowInversion <;> simp

private theorem leg?_eq_none_iff : s.leg? pair = none ↔ ¬ s.HasLeg pair := by
  rw [← leg?_isSome_iff, Option.not_isSome_iff_eq_none]

private theorem bridge?_isSome_iff {middle : Currency} :
    (s.bridge? pair middle).isSome ↔ s.Joins pair middle := by
  rw [Option.isSome_iff_exists]
  constructor
  · rintro ⟨route, h⟩
    obtain ⟨first, second, -, hsource, htarget, hfirst, hsecond⟩ := bridge?_eq_some_iff.mp h
    exact ⟨hsource, htarget, leg?_isSome_iff.mp (Option.isSome_of_eq_some hfirst),
      leg?_isSome_iff.mp (Option.isSome_of_eq_some hsecond)⟩
  · intro h
    obtain ⟨first, hfirst⟩ := Option.isSome_iff_exists.mp (leg?_isSome_iff.mpr h.first)
    obtain ⟨second, hsecond⟩ := Option.isSome_iff_exists.mp (leg?_isSome_iff.mpr h.second)
    exact ⟨_, bridge?_eq_some_iff.mpr
      ⟨first, second, rfl, h.ne_source, h.ne_target, hfirst, hsecond⟩⟩

private theorem isIdentity_eq_true_iff :
    pair.isIdentity = true ↔ pair.source = pair.target := beq_iff_eq

/-- The search for a route finds the route that a pair takes, and no other. -/
theorem route?_eq_some_iff (hnodup : (s.baseRates.map (·.pair)).Nodup) :
    s.route? pair = some route ↔ s.RouteFor pair route := by
  constructor
  · intro h
    unfold route? at h
    split_ifs at h with hidentity
    have hends : pair.source ≠ pair.target := fun heq => hidentity (isIdentity_eq_true_iff.mpr heq)
    cases hleg : s.leg? pair with
    | some leg =>
        rw [hleg] at h
        cases h
        exact .single hends ((leg?_eq_some_iff hnodup).mp hleg)
    | none =>
        rw [hleg] at h
        obtain ⟨before, middle, after, hbridges, hbridge, hskipped⟩ :=
          List.findSome?_eq_some_iff.mp h
        obtain ⟨first, second, rfl, hsource, htarget, hfirst, hsecond⟩ :=
          bridge?_eq_some_iff.mp hbridge
        refine .bridge hends (leg?_eq_none_iff.mp hleg) hbridges (fun other hother hjoins => ?_)
          hsource htarget ((leg?_eq_some_iff hnodup).mp hfirst)
          ((leg?_eq_some_iff hnodup).mp hsecond)
        have hsome := bridge?_isSome_iff.mpr hjoins
        rw [hskipped other hother] at hsome
        cases hsome
  · intro h
    cases h with
    | single hends hleg =>
        exact route?_of_leg? (beq_eq_false_iff_ne.mpr hends) ((leg?_eq_some_iff hnodup).mpr hleg)
    | @bridge before after middle first second hends hnone hbridges hskipped hsource htarget hfirst
        hsecond =>
        have hidentity : pair.isIdentity = false := beq_eq_false_iff_ne.mpr hends
        rw [route?, hidentity, if_neg Bool.false_ne_true, leg?_eq_none_iff.mpr hnone]
        refine List.findSome?_eq_some_iff.mpr ⟨before, middle, after, hbridges, ?_, ?_⟩
        · exact bridge?_eq_some_iff.mpr ⟨first, second, rfl, hsource, htarget,
            (leg?_eq_some_iff hnodup).mpr hfirst, (leg?_eq_some_iff hnodup).mpr hsecond⟩
        · intro other hother
          rw [← Option.not_isSome_iff_eq_none, bridge?_isSome_iff]
          exact hskipped other hother

private theorem route?_isSome_iff :
    (s.route? pair).isSome ↔ pair.source ≠ pair.target ∧
      (s.HasLeg pair ∨ ∃ middle ∈ s.bridges, s.Joins pair middle) := by
  unfold route?
  split_ifs with hidentity
  · simp [isIdentity_eq_true_iff.mp hidentity]
  · have hends : pair.source ≠ pair.target := fun heq => hidentity (isIdentity_eq_true_iff.mpr heq)
    rw [← leg?_isSome_iff]
    cases s.leg? pair with
    | some leg => simp [hends]
    | none =>
        have hfind : (s.bridges.findSome? (s.bridge? pair)).isSome ↔
            ∃ middle ∈ s.bridges, s.Joins pair middle := by
          rw [List.findSome?_isSome_iff]
          simp only [bridge?_isSome_iff]
        simp [hends, hfind]

/-! ### The way back -/

variable (s)

/-- How a leg goes the other way round. With a base rate for that direction both legs are direct, each
over its own; without one it is the same base rate, with direct and inverse exchanged. -/
inductive Mirrors : Leg → Leg → Prop
  | own {base other : BaseRate} (hbase : base ∈ s.baseRates) (hother : other ∈ s.baseRates)
      (hpair : other.pair = base.pair.inverse) : Mirrors (.direct base) (.direct other)
  | exchanged {leg : Leg} (hone : ¬ s.HasBase leg.base.pair.inverse) : Mirrors leg leg.reverse

/-- How a route goes the other way round: a single leg by itself, a bridge over the same currency with
its legs in the other order. -/
inductive MirrorsRoute (pair : CurrencyPair) : Route → Route → Prop
  | single {leg back : Leg} (hleg : s.Mirrors leg back) :
      MirrorsRoute pair (.single leg) (.single back)
  | bridge {middle : Currency} {first second first' second' : Leg}
      (hfirst : first.pair = ⟨pair.source, middle⟩) (hsecond : second.pair = ⟨middle, pair.target⟩)
      (hfirst' : first'.pair = ⟨pair.target, middle⟩)
      (hsecond' : second'.pair = ⟨middle, pair.source⟩)
      (hleft : s.Mirrors first second') (hright : s.Mirrors second first') :
      MirrorsRoute pair (.bridge first second) (.bridge first' second')

variable {s}

private theorem mirrors_turnLeg (hleg : s.leg? leg.pair = some leg) :
    s.Mirrors leg (s.turnLeg leg) := by
  cases hother : s.baseRate? leg.base.pair.inverse with
  | none =>
      rw [turnLeg_eq_reverse hleg hother]
      exact .exchanged (baseRate?_eq_none_iff.mp hother)
  | some other =>
      cases leg with
      | direct base =>
          have hown : s.baseRate? (Leg.direct base).pair.inverse = some other := hother
          rw [turnLeg_of_own hown]
          exact .own (List.mem_of_find?_eq_some (baseRate?_of_leg? hleg))
            (List.mem_of_find?_eq_some hother) (pair_of_baseRate? hother)
      | inverse base =>
          have hown : s.baseRate? base.pair.inverse = some other := hother
          have hdirect : s.leg? base.pair.inverse = some (.direct other) := by rw [leg?, hown]
          cases hdirect.symm.trans hleg

/-- Where base rates are inverted, the inverse of a pair with a route has the route that mirrors it. -/
theorem mirrorsRoute_turn (hinversion : s.allowInversion = true) (h : s.route? pair = some route) :
    s.MirrorsRoute pair route (s.turn route) := by
  have hmirrors : ∀ leg ∈ route.legs, s.Mirrors leg (s.turnLeg leg) := fun leg hleg =>
    mirrors_turnLeg (leg?_pair_of_route? h leg hleg)
  cases route with
  | single leg => exact .single (hmirrors leg List.mem_cons_self)
  | bridge first second =>
      obtain ⟨middle, -, -, -, hfirst, hsecond⟩ := legs_of_bridge h
      have hback : ∀ (p : CurrencyPair) (leg : Leg), s.leg? p = some leg →
          (s.turnLeg leg).pair = p.inverse := by
        intro p leg hleg
        apply pair_of_leg?
        rw [leg?_inverse hinversion, hleg, Option.map_some]
      exact .bridge (pair_of_leg? hfirst) (pair_of_leg? hsecond) (hback _ _ hsecond)
        (hback _ _ hfirst) (hmirrors first List.mem_cons_self)
        (hmirrors second (List.mem_cons_of_mem _ List.mem_cons_self))

private theorem MirrorsRoute.eq_reverse {back : Route} (h : s.MirrorsRoute pair (.single leg) back)
    (hpair : leg.pair = pair) (hone : ¬ (s.HasBase pair ∧ s.HasBase pair.inverse)) :
    back = .single leg.reverse := by
  cases h with
  | single hleg =>
      cases hleg with
      | own hbase hother hinverse =>
          exact absurd ⟨⟨_, hbase, hpair⟩, ⟨_, hother, hinverse.trans (congrArg _ hpair)⟩⟩ hone
      | exchanged _ => rfl

end MarketSettings

namespace SimulatedMarket

open MarketSettings

/-- Routing is sound, complete and symmetric in every market whose settings were accepted. A pair of
two currencies is priced exactly if it has a base rate, or its inverse has one and base rates are
inverted, or one of the bridge currencies, other than both, has such a leg to either side. The route
that is chosen is the one that comes first: a direct leg before an inverse one, both before any bridge,
and the first bridge currency that joins the pair before the others. Its base rates are found when they
are looked up. Where base rates are inverted, the inverse of a pair is priced if the pair is, by the
route that mirrors its route; unless there is a base rate in each direction a single leg is the same
one exchanged, and the spread is the same. -/
theorem routing_sound_complete_symmetric (m : SimulatedMarket) (h : m.settings.validate = .ok ()) :
    (∀ pair, m.supports pair = true ↔ pair.source ≠ pair.target ∧
      ((m.settings.HasBase pair ∨
          (m.settings.allowInversion = true ∧ m.settings.HasBase pair.inverse)) ∨
        ∃ middle ∈ m.settings.bridges, m.settings.Joins pair middle)) ∧
      (∀ pair route, m.settings.route? pair = some route ↔ m.settings.RouteFor pair route) ∧
      (∀ pair route, m.settings.route? pair = some route → ∀ leg ∈ route.legs,
        m.settings.baseRate? leg.base.pair = some leg.base) ∧
      (m.settings.allowInversion = true → ∀ pair,
        m.supports pair.inverse = m.supports pair ∧
        ∀ route, m.settings.route? pair = some route →
          ∃ back, m.settings.route? pair.inverse = some back ∧
            m.settings.MirrorsRoute pair route back ∧
            (¬ (m.settings.HasBase pair ∧ m.settings.HasBase pair.inverse) →
              m.settings.spreadOf back = m.settings.spreadOf route ∧
              ∀ leg, route = .single leg → back = .single leg.reverse)) := by
  refine ⟨fun pair => route?_isSome_iff, fun pair route =>
    route?_eq_some_iff (nodup_of_validate h), fun pair route hroute =>
    baseRate?_of_route? hroute, fun hinversion pair => ⟨?_, fun route hroute => ?_⟩⟩
  · rw [supports, supports, route?_turn hinversion, Option.isSome_map]
  · have hmirrors := mirrorsRoute_turn hinversion hroute
    refine ⟨m.settings.turn route, ?_, hmirrors, fun hone => ?_⟩
    · rw [route?_turn hinversion, hroute, Option.map_some]
    · cases route with
      | bridge first second => exact ⟨rfl, nofun⟩
      | single leg =>
          have hback := hmirrors.eq_reverse (pair_of_leg? (leg?_of_single hroute)) hone
          have hbase : leg.reverse.base = leg.base := by cases leg <;> rfl
          rw [hback]
          refine ⟨?_, fun other hother => ?_⟩
          · rw [spreadOf, spreadOf, hbase]
          · cases hother
            rfl

/-- In the standard market pesos are priced in euros as euros in pesos, over the dollar. -/
theorem routing_sound_complete_symmetric_euro :
    let euro : CurrencyPair := ⟨⟨"EUR"⟩, ⟨"PHP"⟩⟩
    let m : SimulatedMarket := ⟨.standard, 0, ∅⟩
    MarketSettings.standard.validate = .ok () ∧ m.supports euro.inverse = true ∧
      ∃ route back, m.settings.route? euro = some route ∧
        m.settings.route? euro.inverse = some back ∧ m.settings.MirrorsRoute euro route back := by
  intro euro m
  have hvalid : MarketSettings.standard.validate = .ok () := by decide +kernel
  have hsupports : m.supports euro = true := by decide +kernel
  obtain ⟨-, -, -, hsymmetric⟩ := m.routing_sound_complete_symmetric hvalid
  obtain ⟨hinverse, hroutes⟩ := hsymmetric rfl euro
  obtain ⟨route, hroute⟩ := Option.isSome_iff_exists.mp hsupports
  obtain ⟨back, hback, hmirrors, -⟩ := hroutes route hroute
  exact ⟨hvalid, hinverse.trans hsupports, route, back, hroute, hback, hmirrors⟩

end SimulatedMarket

end Bureau
