import Bureau.Proofs.Provider.Settings

/-!
Where routes lead. A leg prices its own pair, the legs of a bridge come from different base rates, and
the inverse of a pair is priced over the same legs the other way round.
-/

set_option autoImplicit false

namespace Bureau

def Leg.pair : Leg → CurrencyPair
  | .direct base => base.pair
  | .inverse base => base.pair.inverse

def Leg.reverse : Leg → Leg
  | .direct base => .inverse base
  | .inverse base => .direct base

def Route.reverse : Route → Route
  | .single leg => .single leg.reverse
  | .bridge first second => .bridge second.reverse first.reverse

namespace MarketSettings

variable {s : MarketSettings} {pair : CurrencyPair} {leg first second : Leg}

theorem pair_of_baseRate? {base : BaseRate} (h : s.baseRate? pair = some base) : base.pair = pair := by
  have hpair := List.find?_some (p := fun other : BaseRate => other.pair == pair) h
  exact beq_iff_eq.mp hpair

theorem pair_of_leg? (h : s.leg? pair = some leg) : leg.pair = pair := by
  unfold leg? at h
  cases hdirect : s.baseRate? pair with
  | some base =>
      rw [hdirect] at h
      cases h
      exact pair_of_baseRate? hdirect
  | none =>
      rw [hdirect] at h
      simp only at h
      split_ifs at h
      obtain ⟨base, hbase, rfl⟩ := Option.map_eq_some_iff.mp h
      rw [Leg.pair, pair_of_baseRate? hbase]
      rfl

theorem route?_of_leg? (hpair : pair.isIdentity = false) (h : s.leg? pair = some leg) :
    s.route? pair = some (.single leg) := by
  rw [route?, hpair, if_neg Bool.false_ne_true, h]

theorem legs_of_bridge (h : s.route? pair = some (.bridge first second)) :
    ∃ middle, middle ≠ pair.source ∧ middle ≠ pair.target ∧ pair.source ≠ pair.target ∧
      s.leg? ⟨pair.source, middle⟩ = some first ∧ s.leg? ⟨middle, pair.target⟩ = some second := by
  unfold route? at h
  split_ifs at h with hidentity
  have hends : pair.source ≠ pair.target := fun heq => hidentity (beq_iff_eq.mpr heq)
  cases hleg : s.leg? pair with
  | some leg =>
      rw [hleg] at h
      cases h
  | none =>
      rw [hleg] at h
      obtain ⟨middle, -, hbridge⟩ := List.exists_of_findSome?_eq_some h
      obtain ⟨left, right, hroute, hsource, htarget, hleft, hright⟩ :=
        bridge?_eq_some_iff.mp hbridge
      cases hroute
      exact ⟨middle, hsource, htarget, hends, hleft, hright⟩

/-- The legs of a bridge are priced as pairs of their own over themselves. -/
theorem route?_of_bridge (h : s.route? pair = some (.bridge first second)) :
    s.route? first.pair = some (.single first) ∧ s.route? second.pair = some (.single second) := by
  obtain ⟨middle, hsource, htarget, -, hfirst, hsecond⟩ := legs_of_bridge h
  rw [pair_of_leg? hfirst, pair_of_leg? hsecond]
  refine ⟨route?_of_leg? ?_ hfirst, route?_of_leg? ?_ hsecond⟩
  · exact beq_eq_false_iff_ne.mpr (Ne.symm hsource)
  · exact beq_eq_false_iff_ne.mpr htarget

private theorem base_pair_of_leg (leg : Leg) :
    leg.base.pair = leg.pair ∨ leg.base.pair = leg.pair.inverse := by
  cases leg with
  | direct base => exact .inl rfl
  | inverse base => exact .inr rfl

theorem base_pair_ne_of_bridge (h : s.route? pair = some (.bridge first second)) :
    first.base.pair ≠ second.base.pair := by
  obtain ⟨middle, hsource, htarget, hends, hfirst, hsecond⟩ := legs_of_bridge h
  have hfirst' := base_pair_of_leg first
  have hsecond' := base_pair_of_leg second
  rw [pair_of_leg? hfirst] at hfirst'
  rw [pair_of_leg? hsecond] at hsecond'
  intro heq
  rcases hfirst' with hleft | hleft <;> rcases hsecond' with hright | hright <;>
    rw [hleft, hright] at heq <;> obtain ⟨h1, h2⟩ := CurrencyPair.mk.inj heq
  · exact hsource h1.symm
  · exact hends h1
  · exact hends h2
  · exact htarget h1

theorem leg?_of_single (h : s.route? pair = some (.single leg)) : s.leg? pair = some leg := by
  unfold route? at h
  split_ifs at h
  cases hleg : s.leg? pair with
  | some other =>
      rw [hleg] at h
      cases h
      rfl
  | none =>
      rw [hleg] at h
      obtain ⟨middle, -, hbridge⟩ := List.exists_of_findSome?_eq_some h
      obtain ⟨left, right, hroute, -⟩ := bridge?_eq_some_iff.mp hbridge
      cases hroute

theorem leg?_pair_of_route? {route : Route} (h : s.route? pair = some route) :
    ∀ leg ∈ route.legs, s.leg? leg.pair = some leg := by
  cases route with
  | single leg =>
      intro other hother
      rw [List.mem_singleton.mp hother, pair_of_leg? (leg?_of_single h)]
      exact leg?_of_single h
  | bridge first second =>
      obtain ⟨hfirst, hsecond⟩ := route?_of_bridge h
      intro other hother
      rcases List.mem_pair.mp hother with rfl | rfl
      · exact leg?_of_single hfirst
      · exact leg?_of_single hsecond

/-! ### The other way round -/

/-- The leg for the inverse of the pair of a leg: over a base rate of its own, or else the same leg
reversed. -/
def turnLeg (s : MarketSettings) (leg : Leg) : Leg :=
  match s.baseRate? leg.pair.inverse with
  | some base => .direct base
  | none => leg.reverse

def turn (s : MarketSettings) : Route → Route
  | .single leg => .single (s.turnLeg leg)
  | .bridge first second => .bridge (s.turnLeg second) (s.turnLeg first)

section Inverse

variable (hinversion : s.allowInversion = true)
include hinversion

theorem leg?_inverse (pair : CurrencyPair) : s.leg? pair.inverse = (s.leg? pair).map s.turnLeg := by
  have hback : pair.inverse.inverse = pair := rfl
  cases hleg : s.leg? pair with
  | none =>
      unfold leg? at hleg ⊢
      rw [hinversion] at hleg ⊢
      rw [hback]
      cases hthis : s.baseRate? pair with
      | some base => simp [hthis] at hleg
      | none =>
          rw [hthis] at hleg
          rw [Option.map_eq_none_iff.mp hleg]
          rfl
  | some leg =>
      rw [Option.map_some, turnLeg, pair_of_leg? hleg]
      unfold leg? at hleg ⊢
      rw [hinversion] at hleg ⊢
      rw [hback]
      cases hother : s.baseRate? pair.inverse with
      | some base => rfl
      | none =>
          rw [hother] at hleg
          cases hthis : s.baseRate? pair with
          | none => simp [hthis] at hleg
          | some base =>
              rw [hthis] at hleg
              cases hleg
              rfl

private theorem bridge?_inverse (pair : CurrencyPair) (middle : Currency) :
    s.bridge? pair.inverse middle = (s.bridge? pair middle).map s.turn := by
  have hleft := leg?_inverse hinversion ⟨middle, pair.target⟩
  have hright := leg?_inverse hinversion ⟨pair.source, middle⟩
  unfold bridge?
  change (if middle = pair.target ∨ middle = pair.source then _ else
    (s.leg? (CurrencyPair.inverse ⟨middle, pair.target⟩)).bind fun first =>
      (s.leg? (CurrencyPair.inverse ⟨pair.source, middle⟩)).bind fun second =>
        some (Route.bridge first second)) = _
  rw [hleft, hright]
  by_cases hmiddle : middle = pair.source ∨ middle = pair.target
  · rw [if_pos hmiddle, if_pos hmiddle.symm]
    rfl
  · rw [if_neg hmiddle, if_neg fun h => hmiddle h.symm]
    cases s.leg? ⟨pair.source, middle⟩ <;> cases s.leg? ⟨middle, pair.target⟩ <;> rfl

theorem route?_turn (pair : CurrencyPair) :
    s.route? pair.inverse = (s.route? pair).map s.turn := by
  have hidentity : pair.inverse.isIdentity = pair.isIdentity := BEq.comm
  have hbridges : ∀ middles : List Currency, middles.findSome? (s.bridge? pair.inverse) =
      (middles.findSome? (s.bridge? pair)).map s.turn := by
    intro middles
    induction middles with
    | nil => rfl
    | cons middle rest ih =>
        rw [List.findSome?_cons, List.findSome?_cons, bridge?_inverse hinversion]
        cases s.bridge? pair middle with
        | none => exact ih
        | some route => rfl
  unfold route?
  rw [hidentity, leg?_inverse hinversion]
  cases pair.isIdentity with
  | true => rfl
  | false =>
      cases s.leg? pair with
      | some leg => rfl
      | none => exact hbridges s.bridges

end Inverse

theorem turnLeg_of_own {other : BaseRate} (h : s.baseRate? leg.pair.inverse = some other) :
    s.turnLeg leg = .direct other := by
  rw [turnLeg, h]

/-- Without a base rate for the other direction a leg is reversed. One that is reversed already is over
the base rate of that direction. -/
theorem turnLeg_eq_reverse (hleg : s.leg? leg.pair = some leg)
    (hone : s.baseRate? leg.base.pair.inverse = none) : s.turnLeg leg = leg.reverse := by
  cases leg with
  | direct base =>
      have hnone : s.baseRate? (Leg.direct base).pair.inverse = none := hone
      rw [turnLeg, hnone]
  | inverse base =>
      have hbase : s.baseRate? base.pair = some base := baseRate?_of_leg? hleg
      exact turnLeg_of_own hbase

theorem route?_inverse (hinversion : s.allowInversion = true)
    (hone : ∀ base ∈ s.baseRates, s.baseRate? base.pair.inverse = none) (pair : CurrencyPair) :
    s.route? pair.inverse = (s.route? pair).map Route.reverse := by
  rw [route?_turn hinversion]
  cases hroute : s.route? pair with
  | none => rfl
  | some route =>
      have hlegs : ∀ leg ∈ route.legs, s.turnLeg leg = leg.reverse := by
        intro leg hleg
        have hfound := leg?_pair_of_route? hroute leg hleg
        exact turnLeg_eq_reverse hfound
          (hone leg.base (List.mem_of_find?_eq_some (baseRate?_of_leg? hfound)))
      cases route with
      | single leg => rw [Option.map_some, turn, hlegs leg (by simp [Route.legs])]; rfl
      | bridge first second =>
          rw [Option.map_some, turn, hlegs first (by simp [Route.legs]),
            hlegs second (by simp [Route.legs])]
          rfl

end MarketSettings

end Bureau
