import Bureau.Proofs.Provider.Market
import Bureau.Proofs.Provider.Walk
import Bureau.Proofs.Random.Unit
import Bureau.Proofs.Rate.Bracket

/-!
Prices as readings of base rates. Every price comes of reading the base rates of its route one after the
other; a reading moves the walk of its base rate and nothing else. Whatever is asked of a market, its
offsets stay between minus one and one.
-/

set_option autoImplicit false

namespace Bureau

open Attempt

/-- A base rate as it is read: its walk before and after, and the mid that comes of it. -/
structure Reading where
  base : BaseRate
  /-- The walk that was found, if it had started. -/
  before : Option Walk
  after : Walk
  mid : Decimal

inductive MarketRequest where
  | rate (pair : CurrencyPair)
  | setDrift (pair : CurrencyPair) (offset : Decimal)
  | resetDrift

structure MarketEvent where
  request : MarketRequest
  now : Instant

def Reading.offset (r : Reading) : Decimal := r.after.offset

def Leg.price? : Leg → Decimal → Option Decimal
  | .direct _, mid => some mid
  | .inverse _, mid => Decimal.one.div? mid

def Route.price? : Route → List Decimal → Option Decimal
  | .single leg, [mid] => leg.price? mid
  | .bridge first second, [a, b] => do (← first.price? a).mul? (← second.price? b)
  | _, _ => none

namespace SimulatedMarket

variable {m m' : SimulatedMarket} {now : Instant}

def withWalk (m : SimulatedMarket) (pair : CurrencyPair) (w : Walk) : SimulatedMarket :=
  { m with walks := m.walks.insert pair w }

theorem getElem?_withWalk (m : SimulatedMarket) (pair other : CurrencyPair) (w : Walk) :
    (m.withWalk pair w).walks[other]? = if pair = other then some w else m.walks[other]? := by
  simp only [withWalk, Std.HashMap.getElem?_insert, beq_iff_eq]

theorem getElem?_withWalk_self (m : SimulatedMarket) (pair : CurrencyPair) (w : Walk) :
    (m.withWalk pair w).walks[pair]? = some w := Std.HashMap.getElem?_insert_self

theorem walk_eq (m : SimulatedMarket) (pair : CurrencyPair) (now : Instant) :
    m.walk pair now = m.walks[pair]?.getD (Walk.start now) := Std.HashMap.getD_eq_getD_getElem?

theorem walk_withWalk (m : SimulatedMarket) (pair other : CurrencyPair) (w : Walk) :
    (m.withWalk pair w).walk other now = if pair = other then w else m.walk other now := by
  rw [walk_eq, walk_eq, getElem?_withWalk]
  split_ifs <;> rfl

theorem walk_fresh (hempty : m.walks = ∅) (pair : CurrencyPair) (now : Instant) :
    m.walk pair now = Walk.start now := by
  rw [walk, hempty]
  exact Std.HashMap.getD_empty

/-- Reads a base rate, if its step can be taken and its mid can be written down. -/
def reading? (m : SimulatedMarket) (now : Instant) (base : BaseRate) :
    Option (Reading × SimulatedMarket) := do
  let w ← (m.walk base.pair now).after? m.settings.drift (m.unit base.pair) now
  let mid ← (Decimal.one.add? w.offset).bind base.mid.mul?
  return (⟨base, m.walks[base.pair]?, w, mid⟩, m.withWalk base.pair w)

theorem reading?_eq_some {base : BaseRate} {r : Reading} :
    m.reading? now base = some (r, m') ↔
      (m.walk base.pair now).after? m.settings.drift (m.unit base.pair) now = some r.after ∧
        r.base = base ∧ r.before = m.walks[base.pair]? ∧
        (Decimal.one.add? r.offset).bind base.mid.mul? = some r.mid ∧
        m' = m.withWalk base.pair r.after := by
  constructor
  · intro h
    obtain ⟨w, hw, h⟩ := Option.bind_eq_some_iff.mp h
    obtain ⟨mid, hmid, h⟩ := Option.bind_eq_some_iff.mp h
    cases h
    exact ⟨hw, rfl, rfl, hmid, rfl⟩
  · obtain ⟨own, before, after, mid⟩ := r
    rintro ⟨hafter, rfl, hbefore, hmid, rfl⟩
    simp only [Reading.offset] at hmid
    rw [reading?, hafter]
    simp only [Option.bind_eq_bind, Option.bind_some, hmid, ← hbefore]
    rfl

def readings? (m : SimulatedMarket) (now : Instant) :
    List BaseRate → Option (List Reading × SimulatedMarket)
  | [] => some ([], m)
  | base :: rest => do
      let (first, k) ← m.reading? now base
      let (others, k) ← k.readings? now rest
      return (first :: others, k)

theorem readings?_cons_eq_some {base : BaseRate} {rest : List BaseRate} {rs : List Reading}
    (h : m.readings? now (base :: rest) = some (rs, m')) :
    ∃ first others k, m.reading? now base = some (first, k) ∧
      k.readings? now rest = some (others, m') ∧ rs = first :: others := by
  obtain ⟨⟨first, k⟩, hfirst, h⟩ := Option.bind_eq_some_iff.mp h
  obtain ⟨⟨others, last⟩, hothers, h⟩ := Option.bind_eq_some_iff.mp h
  cases h
  exact ⟨first, others, k, hfirst, hothers, rfl⟩

theorem runOn_driftedMid (m : SimulatedMarket) (base : BaseRate) (now : Instant) :
    (driftedMid base now).runOn m =
      match (m.walk base.pair now).after? m.settings.drift (m.unit base.pair) now with
      | some w => (Crash.arithmetic.unless ((Decimal.one.add? w.offset).bind base.mid.mul?),
          m.withWalk base.pair w)
      | none => (.error .arithmetic, m.withWalk base.pair
          { m.walk base.pair now with draws := (m.walk base.pair now).draws + 1 }) := by
  unfold driftedMid
  rw [runOn_bind_ok (runOn_get m)]
  simp only [Walk.runOn_read]
  cases (m.walk base.pair now).after? m.settings.drift (m.unit base.pair) now <;> rfl

private theorem runOn_driftedMid_eq_ok {base : BaseRate} {mid : Decimal} :
    (driftedMid base now).runOn m = (.ok mid, m') ↔
      ∃ r, m.reading? now base = some (r, m') ∧ r.mid = mid := by
  rw [runOn_driftedMid, reading?]
  cases (m.walk base.pair now).after? m.settings.drift (m.unit base.pair) now with
  | none => simp
  | some w =>
      simp only [Option.bind_eq_bind, Option.bind_some]
      cases (Decimal.one.add? w.offset).bind base.mid.mul? with
      | none => simp [Crash.unless]
      | some drifted => simp [Crash.unless, and_comm]

theorem runOn_legMid_eq_ok {leg : Leg} {price : Decimal} :
    (legMid now leg).runOn m = (.ok price, m') ↔
      ∃ r, m.reading? now leg.base = some (r, m') ∧ leg.price? r.mid = some price := by
  cases leg with
  | direct base =>
      simp only [legMid, Leg.base, Leg.price?, Option.some.injEq]
      exact runOn_driftedMid_eq_ok
  | inverse base =>
      unfold legMid
      rw [runOn_bind]
      rcases hmid : (driftedMid base now).runOn m with ⟨c | mid, k⟩
      · constructor
        · intro h
          cases h
        · rintro ⟨r, hr, -⟩
          have hread := runOn_driftedMid_eq_ok.mpr ⟨r, hr, rfl⟩
          cases hmid.symm.trans hread
      · obtain ⟨r, hr, rfl⟩ := runOn_driftedMid_eq_ok.mp hmid
        change (Crash.arithmetic.unless (Decimal.one.div? r.mid), k) = (.ok price, m') ↔
          ∃ r, m.reading? now base = some (r, m') ∧ Decimal.one.div? r.mid = some price
        constructor
        · intro h
          obtain ⟨hprice, rfl⟩ := Prod.mk.inj h
          exact ⟨r, hr, unless_eq_ok hprice⟩
        · rintro ⟨s, hs, hprice⟩
          rw [hr] at hs
          cases hs
          rw [hprice]
          rfl

private theorem runOn_routeMid_eq_ok {route : Route} {price : Decimal}
    (h : (routeMid now route).runOn m = (.ok price, m')) :
    ∃ rs, m.readings? now (route.legs.map (·.base)) = some (rs, m') ∧
      route.price? (rs.map (·.mid)) = some price := by
  cases route with
  | single leg =>
      obtain ⟨r, hr, hprice⟩ := runOn_legMid_eq_ok.mp h
      exact ⟨[r], by simp [Route.legs, readings?, hr], hprice⟩
  | bridge first second =>
      unfold routeMid at h
      rw [runOn_bind] at h
      rcases hfirst : (legMid now first).runOn m with ⟨c | a, k⟩
      · rw [hfirst] at h
        cases h
      · rw [hfirst] at h
        simp only at h
        rw [runOn_bind] at h
        rcases hsecond : (legMid now second).runOn k with ⟨c | b, k'⟩
        · rw [hsecond] at h
          cases h
        · rw [hsecond] at h
          obtain ⟨hproduct, rfl⟩ := Prod.mk.inj h
          obtain ⟨r, hr, ha⟩ := runOn_legMid_eq_ok.mp hfirst
          obtain ⟨s, hs, hb⟩ := runOn_legMid_eq_ok.mp hsecond
          refine ⟨[r, s], by simp [Route.legs, readings?, hr, hs], ?_⟩
          simp only [List.map_cons, List.map_nil, Route.price?, ha, hb]
          exact unless_eq_ok hproduct

def basesOf (settings : MarketSettings) (pair : CurrencyPair) : List BaseRate :=
  (settings.route? pair).elim [] fun route => route.legs.map (·.base)

theorem baseRate?_of_mem_basesOf {settings : MarketSettings} {pair : CurrencyPair}
    {base : BaseRate} (h : base ∈ basesOf settings pair) :
    settings.baseRate? base.pair = some base := by
  unfold basesOf at h
  cases hroute : settings.route? pair with
  | none =>
      rw [hroute] at h
      cases h
  | some route =>
      rw [hroute] at h
      obtain ⟨leg, hleg, rfl⟩ := List.mem_map.mp h
      exact MarketSettings.baseRate?_of_route? hroute leg hleg

structure ComesOf (m : SimulatedMarket) (pair : CurrencyPair) (now : Instant)
    (reply : Except FxError Rate) (rs : List Reading) (m' : SimulatedMarket) : Prop where
  readings : m.readings? now (basesOf m.settings pair) = some (rs, m')
  rate : ∀ rate, reply = .ok rate → ∃ route, m.settings.route? pair = some route ∧
    route.price? (rs.map (·.mid)) = some rate.mid ∧
    Rate.make pair rate.mid (m.settings.spreadOf route) m.settings.validity m.settings.name now =
      .ok rate

theorem comesOf_of_runOn_price {pair : CurrencyPair} {reply : Except FxError Rate}
    (h : (price pair (.ok now)).runOn m = (.ok reply, m')) :
    ∃ rs, m.ComesOf pair now reply rs m' := by
  rw [runOn_price] at h
  cases hroute : m.settings.route? pair with
  | none =>
      rw [hroute] at h
      cases h
      exact ⟨[], by rw [basesOf, hroute]; rfl, fun _ => nofun⟩
  | some route =>
      rw [hroute] at h
      simp only at h
      rcases hmid : (routeMid now route).runOn m with ⟨c | mid, k⟩
      · rw [hmid] at h
        cases h
      · rw [hmid, andThen_ok] at h
        obtain ⟨rs, hrs, hprice⟩ := runOn_routeMid_eq_ok hmid
        obtain ⟨hmade, rfl⟩ := Prod.mk.inj h
        cases hmake : Rate.make pair mid (m.settings.spreadOf route) m.settings.validity
          m.settings.name now with
        | error c =>
            rw [hmake] at hmade
            cases hmade
        | ok rate =>
            rw [hmake] at hmade
            cases hmade
            refine ⟨rs, by rw [basesOf, hroute]; exact hrs, fun other hother => ?_⟩
            cases hother
            have hown : rate.mid = mid := (Rate.make_eq_ok hmake).1
            exact ⟨route, hroute, by rw [hown]; exact hprice, by rw [hown]; exact hmake⟩

theorem runOn_price_single {pair : CurrencyPair} {leg : Leg} {r : Reading} {price : Decimal}
    {rate : Rate} (hroute : m.settings.route? pair = some (.single leg))
    (hread : m.reading? now leg.base = some (r, m')) (hprice : leg.price? r.mid = some price)
    (hmake : Rate.make pair price (m.settings.spreadOf (.single leg)) m.settings.validity
      m.settings.name now = .ok rate) :
    (SimulatedMarket.price pair (.ok now)).runOn m = (.ok (.ok rate), m') := by
  have hleg := runOn_legMid_eq_ok.mpr ⟨r, hread, hprice⟩
  rw [runOn_price, hroute]
  simp only [routeMid, hleg, andThen_ok, hmake]
  rfl

theorem comesOf_of_runOn_price_clock {pair : CurrencyPair} {clock : Except Crash Instant}
    {rate : Rate} (h : (price pair clock).runOn m = (.ok (.ok rate), m')) :
    ∃ now rs, clock = .ok now ∧ m.ComesOf pair now (.ok rate) rs m' := by
  cases clock with
  | ok now =>
      obtain ⟨rs, hrs⟩ := comesOf_of_runOn_price h
      exact ⟨now, rs, rfl, hrs⟩
  | error c =>
      unfold price at h
      rw [runOn_bind_ok (runOn_get m)] at h
      cases hroute : m.settings.route? pair with
      | none =>
          simp only [hroute] at h
          cases h
      | some route =>
          simp only [hroute] at h
          rw [runOn_bind] at h
          cases h

/-- Setting an offset pins the walk of a base rate to it, unless it is too great. -/
theorem runOn_setDrift (m : SimulatedMarket) (pair : CurrencyPair) (offset : Decimal)
    (now : Instant) :
    (setDrift pair offset (.ok now)).runOn m =
      if (m.settings.baseRate? pair).isNone then (.ok (.error (.unsupportedPair pair)), m)
      else if Decimal.one ≤ offset.abs then
        (.ok (.error (.invalidConfig
          s!"drift offset {offset} would make {pair} non-positive")), m)
      else (.ok (.ok ()), m.withWalk pair ((m.walk pair now).override offset now)) := by
  unfold setDrift
  rw [runOn_bind_ok (runOn_get m)]
  split_ifs <;> rfl

theorem runOn_setDrift_fresh (hempty : m.walks = ∅) {pair : CurrencyPair} {offset : Decimal}
    (hbase : (m.settings.baseRate? pair).isNone = false) (hsmall : ¬ Decimal.one ≤ offset.abs)
    (now : Instant) :
    (setDrift pair offset (.ok now)).runOn m =
      (.ok (.ok ()), m.withWalk pair ((Walk.start now).override offset now)) := by
  rw [runOn_setDrift, hbase, if_neg Bool.false_ne_true, if_neg hsmall, walk_fresh hempty]

/-! ### Offsets below one -/

/-- How far from zero the offset of a pair is. A walk that has not started stands at zero. -/
def offsetSize (m : SimulatedMarket) (pair : CurrencyPair) : ℚ :=
  |((m.offset? pair).getD Decimal.zero).value|

theorem offsetSize_eq_walk (m : SimulatedMarket) (pair : CurrencyPair) (now : Instant) :
    m.offsetSize pair = |(m.walk pair now).offset.value| := by
  rw [offsetSize, offset?, walk_eq]
  cases m.walks[pair]? <;> rfl

theorem offsetSize_withWalk (m : SimulatedMarket) (pair other : CurrencyPair) (w : Walk) :
    (m.withWalk pair w).offsetSize other =
      if pair = other then |w.offset.value| else m.offsetSize other := by
  rw [offsetSize, offset?, getElem?_withWalk]
  split_ifs <;> rfl

theorem offsetSize_of_empty (h : m.walks = ∅) (pair : CurrencyPair) : m.offsetSize pair = 0 := by
  simp [offsetSize, offset?, h]

/-- Every offset of a market lies between minus one and one. -/
def IsInside (m : SimulatedMarket) : Prop :=
  ∀ (pair : CurrencyPair) (w : Walk), m.walks[pair]? = some w → |w.offset.value| < 1

theorem isInside_iff : m.IsInside ↔ ∀ pair, m.offsetSize pair < 1 := by
  constructor
  · intro h pair
    rw [offsetSize, offset?]
    cases hw : m.walks[pair]? with
    | none => simp
    | some w => exact h pair w hw
  · intro h pair w hw
    have hsize := h pair
    rw [offsetSize, offset?, hw] at hsize
    exact hsize

theorem isInside_of_empty (h : m.walks = ∅) : m.IsInside := by
  intro pair w hw
  rw [h] at hw
  simp at hw

theorem IsInside.walk (h : m.IsInside) (pair : CurrencyPair) (now : Instant) :
    |(m.walk pair now).offset.value| < 1 :=
  m.offsetSize_eq_walk pair now ▸ isInside_iff.mp h pair

theorem IsInside.withWalk (h : m.IsInside) (pair : CurrencyPair) {w : Walk}
    (hw : |w.offset.value| < 1) : (m.withWalk pair w).IsInside := by
  rw [isInside_iff] at h ⊢
  intro other
  rw [offsetSize_withWalk]
  split_ifs
  · exact hw
  · exact h other

theorem exists_after? (hdrift : m.settings.drift.IsValid)
    (hstep : m.settings.drift.maxStep.value ≤ 10 ^ 28) {pair : CurrencyPair}
    (hsize : m.offsetSize pair ≤ 1) (now : Instant) :
    ∃ w, (m.walk pair now).after? m.settings.drift (m.unit pair) now = some w := by
  unfold Walk.after?
  split_ifs
  · have hpart : |(m.unit pair (m.walk pair now).draws).value| ≤ 1 := Random.abs_unit_le _ _
    have hmoved : |(m.unit pair (m.walk pair now).draws).value * m.settings.drift.maxStep.value| ≤
        10 ^ 28 := by
      rw [abs_mul, abs_of_nonneg hdrift.step_nonneg]
      exact (mul_le_of_le_one_left hdrift.step_nonneg hpart).trans hstep
    obtain ⟨offset, hoffset⟩ :=
      Walk.exists_stepped? hmoved (m.offsetSize_eq_walk pair now ▸ hsize)
    rw [hoffset]
    exact ⟨_, rfl⟩
  · exact ⟨_, rfl⟩

theorem exists_reading?_of_after? {base : BaseRate} {now : Instant} {w : Walk}
    (hw : (m.walk base.pair now).after? m.settings.drift (m.unit base.pair) now = some w)
    (hoffset : |w.offset.value| ≤ 1) (hbase : |base.mid.value| ≤ 10 ^ 27) :
    ∃ mid, m.reading? now base =
        some (⟨base, m.walks[base.pair]?, w, mid⟩, m.withWalk base.pair w) ∧
      Decimal.Rounds (base.mid.value * (1 + w.offset.value)) mid := by
  have hfactor : |1 + w.offset.value| ≤ 2 := by
    have htriangle := abs_add_le 1 w.offset.value
    rw [abs_one] at htriangle
    linarith
  obtain ⟨factor, hadd⟩ := Decimal.exists_add? (a := Decimal.one) (b := w.offset) (by
    rw [Decimal.value_one]
    linarith)
  have hvalue := Decimal.value_of_add? hadd (by
    rw [Decimal.value_one]
    linarith)
  rw [Decimal.value_one] at hvalue
  have hproduct : |base.mid.value * (1 + w.offset.value)| ≤ 10 ^ 27 * 2 := by
    rw [abs_mul]
    exact mul_le_mul hbase hfactor (abs_nonneg _) (by norm_num)
  rw [← hvalue] at hproduct ⊢
  obtain ⟨mid, hmid⟩ := Decimal.exists_mul? (a := base.mid) (b := factor) (by linarith)
  refine ⟨mid, reading?_eq_some.mpr ⟨hw, rfl, rfl, ?_, rfl⟩, Decimal.rounds_mul? hmid⟩
  rw [Reading.offset, hadd, Option.bind_some, hmid]

/-- What a request may do to a market, whether it crashes or not. -/
structure MovesOn (m m' : SimulatedMarket) : Prop where
  settings_eq : m'.settings = m.settings
  seed_eq : m'.seed = m.seed
  isInside : m.settings.drift.IsValid → m.IsInside → m'.IsInside

theorem MovesOn.refl (m : SimulatedMarket) : MovesOn m m := ⟨rfl, rfl, fun _ h => h⟩

theorem MovesOn.trans {k : SimulatedMarket} (h : MovesOn m m') (h' : MovesOn m' k) : MovesOn m k where
  settings_eq := h'.settings_eq.trans h.settings_eq
  seed_eq := h'.seed_eq.trans h.seed_eq
  isInside hdrift hinside := h'.isInside (h.settings_eq ▸ hdrift) (h.isInside hdrift hinside)

theorem movesOn_withWalk {pair : CurrencyPair} {w : Walk}
    (h : m.settings.drift.IsValid → m.IsInside → |w.offset.value| < 1) :
    MovesOn m (m.withWalk pair w) :=
  ⟨rfl, rfl, fun hdrift hinside => hinside.withWalk pair (h hdrift hinside)⟩

/-- What pricing may do to a market, whether it crashes or not: offsets stay within the bound of the
settings, or go no further out than they were. -/
structure Reads (m m' : SimulatedMarket) : Prop where
  settings_eq : m'.settings = m.settings
  seed_eq : m'.seed = m.seed
  size_le : ∀ pair, m'.offsetSize pair ≤ Max.max m.settings.drift.maxOffset.value (m.offsetSize pair)

theorem Reads.refl (m : SimulatedMarket) : Reads m m := ⟨rfl, rfl, fun _ => le_max_right _ _⟩

theorem Reads.trans {k : SimulatedMarket} (h : Reads m m') (h' : Reads m' k) : Reads m k where
  settings_eq := h'.settings_eq.trans h.settings_eq
  seed_eq := h'.seed_eq.trans h.seed_eq
  size_le pair := by
    have hle := h'.size_le pair
    rw [h.settings_eq] at hle
    exact hle.trans (max_le (le_max_left _ _) (h.size_le pair))

theorem Reads.movesOn (h : Reads m m') : MovesOn m m' where
  settings_eq := h.settings_eq
  seed_eq := h.seed_eq
  isInside hdrift hinside := by
    rw [isInside_iff] at hinside ⊢
    exact fun pair => (h.size_le pair).trans_lt (max_lt hdrift.offset_lt (hinside pair))

private theorem reads_withWalk {pair : CurrencyPair} {w : Walk}
    (h : |w.offset.value| ≤ Max.max m.settings.drift.maxOffset.value (m.offsetSize pair)) :
    Reads m (m.withWalk pair w) where
  settings_eq := rfl
  seed_eq := rfl
  size_le other := by
    rw [offsetSize_withWalk]
    split_ifs with hsame
    · rwa [← hsame]
    · exact le_max_right _ _

private theorem reads_driftedMid (m : SimulatedMarket) (base : BaseRate) (now : Instant) :
    Reads m ((driftedMid base now).runOn m).2 := by
  have hsize := m.offsetSize_eq_walk base.pair now
  rw [runOn_driftedMid]
  cases hread : (m.walk base.pair now).after? m.settings.drift (m.unit base.pair) now with
  | none => exact reads_withWalk (hsize ▸ le_max_right _ _)
  | some w => exact reads_withWalk (hsize ▸ Walk.abs_le_of_after? hread)

theorem reads_legMid (m : SimulatedMarket) (leg : Leg) (now : Instant) :
    Reads m ((legMid now leg).runOn m).2 := by
  cases leg with
  | direct base => exact m.reads_driftedMid base now
  | inverse base =>
      unfold legMid
      rw [runOn_bind_eq_andThen]
      exact rel_andThen (fun _ _ _ => .trans) (m.reads_driftedMid base now) fun _ k => .refl k

private theorem reads_routeMid (m : SimulatedMarket) (route : Route) (now : Instant) :
    Reads m ((routeMid now route).runOn m).2 := by
  cases route with
  | single leg => exact m.reads_legMid leg now
  | bridge first second =>
      unfold routeMid
      rw [runOn_bind_eq_andThen]
      refine rel_andThen (fun _ _ _ => .trans) (m.reads_legMid first now) fun _ k => ?_
      rw [runOn_bind_eq_andThen]
      exact rel_andThen (fun _ _ _ => .trans) (k.reads_legMid second now) fun _ k => .refl k

theorem reads_price (m : SimulatedMarket) (pair : CurrencyPair) (clock : Except Crash Instant) :
    Reads m ((price pair clock).runOn m).2 := by
  unfold price
  rw [runOn_bind_ok (runOn_get m)]
  cases hroute : m.settings.route? pair with
  | none =>
      simp only [hroute]
      exact .refl m
  | some route =>
      simp only [hroute]
      rw [runOn_bind_eq_andThen]
      refine rel_andThen (fun _ _ _ => .trans) (.refl m) fun now k => ?_
      rw [runOn_bind_eq_andThen]
      refine rel_andThen (fun _ _ _ => .trans) (k.reads_routeMid route now) fun _ k => ?_
      rw [runOn_bind_eq_andThen]
      exact rel_andThen (fun _ _ _ => .trans) (.refl k) fun _ k => .refl k

theorem movesOn_setDrift (m : SimulatedMarket) (pair : CurrencyPair) (offset : Decimal)
    (clock : Except Crash Instant) : MovesOn m ((setDrift pair offset clock).runOn m).2 := by
  unfold setDrift
  rw [runOn_bind_ok (runOn_get m)]
  split_ifs with hbase hgreat
  · exact .refl m
  · exact .refl m
  · have hoffset : |offset.value| < 1 := by
      rw [Decimal.le_iff, Decimal.value_one, Decimal.value_abs] at hgreat
      exact not_le.mp hgreat
    have haltered : MovesOn m { m with walks := m.walks.alter pair (Option.map ({ · with offset })) } := by
      refine ⟨rfl, rfl, fun _ hinside other w hw => ?_⟩
      simp only [Std.HashMap.getElem?_alter] at hw
      split_ifs at hw with hsame
      · obtain ⟨v, -, rfl⟩ := Option.map_eq_some_iff.mp hw
        exact hoffset
      · exact hinside other w hw
    rw [runOn_bind_ok (runOn_set m _)]
    cases clock with
    | error c => exact haltered
    | ok now => exact movesOn_withWalk fun _ _ => hoffset

def serve (m : SimulatedMarket) (e : MarketEvent) : SimulatedMarket :=
  match e.request with
  | .rate pair => ((price pair (.ok e.now)).runOn m).2
  | .setDrift pair offset => ((setDrift pair offset (.ok e.now)).runOn m).2
  | .resetDrift => m.resetDrift

def run (m : SimulatedMarket) (history : List MarketEvent) : SimulatedMarket :=
  history.foldl serve m

/-- The markets that can come of settings by requests at any time, whether these crash or not. -/
inductive Reached (settings : MarketSettings) : SimulatedMarket → Prop where
  | make {entropy : UInt64} {m : SimulatedMarket} (h : make settings entropy = .ok m) :
      Reached settings m
  | price {m : SimulatedMarket} (h : Reached settings m) (pair : CurrencyPair)
      (clock : Except Crash Instant) : Reached settings ((price pair clock).runOn m).2
  | setDrift {m : SimulatedMarket} (h : Reached settings m) (pair : CurrencyPair)
      (offset : Decimal) (clock : Except Crash Instant) :
      Reached settings ((setDrift pair offset clock).runOn m).2
  | resetDrift {m : SimulatedMarket} (h : Reached settings m) : Reached settings m.resetDrift

theorem make_eq_ok {settings : MarketSettings} {entropy : UInt64}
    (h : make settings entropy = .ok m) :
    settings.validate = .ok () ∧ m = ⟨settings, settings.seed.getD entropy, ∅⟩ := by
  unfold make at h
  cases hvalid : settings.validate with
  | error reason =>
      rw [hvalid] at h
      cases h
  | ok _ =>
      rw [hvalid] at h
      cases h
      exact ⟨rfl, rfl⟩

theorem make_of_validate {settings : MarketSettings} (h : settings.validate = .ok ())
    (entropy : UInt64) :
    make settings entropy = .ok ⟨settings, settings.seed.getD entropy, ∅⟩ := by
  unfold make
  rw [h]

/-- Whatever has been asked of a market, its offsets lie between minus one and one. -/
theorem Reached.facts {settings : MarketSettings} (h : Reached settings m) :
    settings.IsValid ∧ m.settings = settings ∧ m.IsInside := by
  have hmoves : ∀ {k k' : SimulatedMarket}, MovesOn k k' →
      (settings.IsValid ∧ k.settings = settings ∧ k.IsInside) →
      settings.IsValid ∧ k'.settings = settings ∧ k'.IsInside := by
    rintro k k' hmoves ⟨hvalid, rfl, hinside⟩
    exact ⟨hvalid, hmoves.settings_eq, hmoves.isInside hvalid.drift hinside⟩
  induction h with
  | make h =>
      obtain ⟨hvalid, rfl⟩ := make_eq_ok h
      exact ⟨MarketSettings.isValid_of_validate hvalid, rfl, isInside_of_empty rfl⟩
  | price _ pair clock ih => exact hmoves (reads_price _ pair clock).movesOn ih
  | setDrift _ pair offset clock ih => exact hmoves (movesOn_setDrift _ pair offset clock) ih
  | resetDrift _ ih => exact ⟨ih.1, ih.2.1, isInside_of_empty rfl⟩

end SimulatedMarket

end Bureau
