import Bureau.Proofs.Provider.Bracket
import Bureau.Proofs.Provider.Readings
import Bureau.Proofs.Provider.Routes

/-!
Base rates move independently. What is seen of a base rate while a market is asked for prices, told to
set offsets and reset depends on what touches the walk of that base rate, and on nothing else: two runs
that touch it alike show it alike, whatever they do to other base rates in between. A reading that is
part of a bridge touches the walk only if the legs before it can be priced.
-/

set_option autoImplicit false

namespace Bureau

open Attempt

/-- What an event does to the walk of a base rate. -/
inductive Touch where
  | read (now : Instant)
  | override (offset : Decimal) (now : Instant)
  | reset (now : Instant)
deriving DecidableEq

/-- What is seen of a base rate when its walk is touched: the offset afterwards, and the mid that a
reading obtains. -/
structure Sight where
  touch : Touch
  offset : Option Decimal
  mid : Option (Except Crash Decimal)

/-- Whether the walk was really reached: a reading that never came to it obtains no mid. -/
def Sight.isReached (s : Sight) : Bool :=
  match s.touch with
  | .read _ => s.mid.isSome
  | _ => true

/-- How an event touches the walk of a base rate, by the routes of the settings. -/
def MarketSettings.touch? (s : MarketSettings) (pair : CurrencyPair) (e : MarketEvent) :
    Option Touch :=
  match e.request with
  | .rate asked =>
      if pair ∈ (SimulatedMarket.basesOf s asked).map (·.pair) then some (.read e.now) else none
  | .setDrift other offset => if other = pair then some (.override offset e.now) else none
  | .resetDrift => some (.reset e.now)

def MarketSettings.touches (s : MarketSettings) (pair : CurrencyPair) (history : List MarketEvent) :
    List Touch := history.filterMap (s.touch? pair)

namespace SimulatedMarket

/-- The mid of a base rate that is obtained while legs are priced one after the other, if it comes to
that. -/
def midOf (pair : CurrencyPair) (now : Instant) :
    List Leg → SimulatedMarket → Option (Except Crash Decimal)
  | [], _ => none
  | leg :: rest, m =>
      if leg.base.pair = pair then some ((driftedMid leg.base now).runOn m).1
      else
        match (legMid now leg).runOn m with
        | (.ok _, k) => midOf pair now rest k
        | (.error _, _) => none

def obtained (m : SimulatedMarket) (pair : CurrencyPair) (e : MarketEvent) :
    Option (Except Crash Decimal) :=
  match e.request with
  | .rate asked => (m.settings.route? asked).bind fun route => midOf pair e.now route.legs m
  | _ => none

def sight (m : SimulatedMarket) (pair : CurrencyPair) (touch : Touch) (e : MarketEvent) : Sight :=
  ⟨touch, (m.serve e).offset? pair, m.obtained pair e⟩

def sights (pair : CurrencyPair) : List MarketEvent → SimulatedMarket → List Sight
  | [], _ => []
  | e :: rest, m =>
      match m.settings.touch? pair e with
      | some touch => m.sight pair touch e :: sights pair rest (m.serve e)
      | none => sights pair rest (m.serve e)

/-- No price that reads a base rate crashes in the course of a history. -/
def Answers (pair : CurrencyPair) : List MarketEvent → SimulatedMarket → Prop
  | [], _ => True
  | e :: rest, m =>
      (∀ asked, e.request = .rate asked → pair ∈ (basesOf m.settings asked).map (·.pair) →
        ∃ reply, ((price asked (.ok e.now)).runOn m).1 = .ok reply) ∧ Answers pair rest (m.serve e)

variable {m m' k : SimulatedMarket} {pair : CurrencyPair} {now : Instant} {e : MarketEvent}

/-! ### Markets that agree on a walk -/

/-- Two markets with the same settings and seed in which a walk stands alike. -/
structure SameWalk (pair : CurrencyPair) (m m' : SimulatedMarket) : Prop where
  settings_eq : m'.settings = m.settings
  seed_eq : m'.seed = m.seed
  walk_eq : m'.walks[pair]? = m.walks[pair]?

theorem SameWalk.refl (pair : CurrencyPair) (m : SimulatedMarket) : SameWalk pair m m := ⟨rfl, rfl, rfl⟩

theorem SameWalk.symm (h : SameWalk pair m m') : SameWalk pair m' m :=
  ⟨h.settings_eq.symm, h.seed_eq.symm, h.walk_eq.symm⟩

theorem SameWalk.trans (h : SameWalk pair m m') (h' : SameWalk pair m' k) : SameWalk pair m k :=
  ⟨h'.settings_eq.trans h.settings_eq, h'.seed_eq.trans h.seed_eq, h'.walk_eq.trans h.walk_eq⟩

theorem SameWalk.withWalk (h : SameWalk pair m m') (w : Walk) :
    SameWalk pair (m.withWalk pair w) (m'.withWalk pair w) :=
  ⟨h.settings_eq, h.seed_eq, by rw [getElem?_withWalk_self, getElem?_withWalk_self]⟩

private theorem sameWalk_withWalk {other : CurrencyPair} (hother : other ≠ pair) (w : Walk) :
    SameWalk pair m (m.withWalk other w) :=
  ⟨rfl, rfl, by rw [getElem?_withWalk, if_neg hother]⟩

theorem SameWalk.walk (h : SameWalk pair m m') (now : Instant) :
    m'.walk pair now = m.walk pair now := by
  rw [SimulatedMarket.walk_eq, SimulatedMarket.walk_eq, h.walk_eq]

theorem SameWalk.driftedMid {base : BaseRate} (h : SameWalk base.pair m m') (now : Instant) :
    ((driftedMid base now).runOn m').1 = ((driftedMid base now).runOn m).1 ∧
      SameWalk base.pair ((SimulatedMarket.driftedMid base now).runOn m).2
        ((SimulatedMarket.driftedMid base now).runOn m').2 := by
  have hunit : m'.unit base.pair = m.unit base.pair := by rw [unit, unit, h.seed_eq]
  rw [runOn_driftedMid, runOn_driftedMid, h.walk now, h.settings_eq, hunit]
  cases (m.walk base.pair now).after? m.settings.drift (m.unit base.pair) now with
  | none => exact ⟨rfl, h.withWalk _⟩
  | some w => exact ⟨rfl, h.withWalk _⟩

/-! ### Legs one after the other -/

private theorem snd_runOn_legMid (m : SimulatedMarket) (leg : Leg) (now : Instant) :
    ((legMid now leg).runOn m).2 = ((driftedMid leg.base now).runOn m).2 := by
  cases leg with
  | direct base => rfl
  | inverse base =>
      unfold legMid
      rw [runOn_bind]
      simp only [Leg.base]
      rcases (driftedMid base now).runOn m with ⟨c | mid, t⟩ <;> rfl

private theorem sameWalk_driftedMid {base : BaseRate} (hbase : base.pair ≠ pair) (now : Instant) :
    SameWalk pair m ((driftedMid base now).runOn m).2 := by
  rw [runOn_driftedMid]
  cases (m.walk base.pair now).after? m.settings.drift (m.unit base.pair) now with
  | none => exact sameWalk_withWalk hbase _
  | some w => exact sameWalk_withWalk hbase _

private theorem sameWalk_legMids {legs : List Leg} (h : ∀ leg ∈ legs, leg.base.pair ≠ pair) :
    SameWalk pair m ((legs.mapM (legMid now)).runOn m).2 := by
  induction legs generalizing m with
  | nil => exact .refl pair m
  | cons leg rest ih =>
      have hfirst := sameWalk_driftedMid (m := m) (h leg List.mem_cons_self) now
      rw [← snd_runOn_legMid] at hfirst
      rw [List.mapM_cons, runOn_bind]
      rcases hrun : (legMid now leg).runOn m with ⟨c | mid, t⟩ <;> rw [hrun] at hfirst
      · exact hfirst
      · simp only
        rw [runOn_bind_pure_snd]
        exact hfirst.trans (ih fun other hother => h other (List.mem_cons_of_mem leg hother))

/-- A base rate among legs that are priced one after the other. Either its reading is reached, and does
to the walk what it does by itself, or a leg before it crashes and the walk is left alone. -/
theorem midOf_cases (m : SimulatedMarket) (now : Instant) {base : BaseRate} {legs : List Leg}
    (hone : (legs.map (·.base.pair)).Nodup)
    (hbase : ∀ leg ∈ legs, leg.base.pair = base.pair → leg.base = base) :
    (midOf base.pair now legs m = none ∧
      SameWalk base.pair m ((legs.mapM (legMid now)).runOn m).2 ∧
      (base.pair ∈ legs.map (·.base.pair) →
        ∃ c, ((legs.mapM (legMid now)).runOn m).1 = .error c)) ∨
    (midOf base.pair now legs m = some ((driftedMid base now).runOn m).1 ∧
      SameWalk base.pair ((driftedMid base now).runOn m).2
        ((legs.mapM (legMid now)).runOn m).2) := by
  induction legs generalizing m with
  | nil => exact .inl ⟨rfl, .refl _ _, fun h => absurd h List.not_mem_nil⟩
  | cons leg rest ih =>
      obtain ⟨hnone, hrest⟩ := List.nodup_cons.mp hone
      have hstate := m.snd_runOn_legMid leg now
      rw [List.mapM_cons, runOn_bind, midOf]
      by_cases hpair : leg.base.pair = base.pair
      · have hown := hbase leg List.mem_cons_self hpair
        rw [if_pos hpair, hown]
        rw [hown] at hstate
        refine .inr ⟨rfl, ?_⟩
        rcases hrun : (legMid now leg).runOn m with ⟨c | mid, t⟩ <;> rw [hrun] at hstate <;>
          rw [← hstate]
        · exact .refl _ _
        · simp only
          rw [runOn_bind_pure_snd]
          refine sameWalk_legMids fun other hother hsame => hnone ?_
          exact List.mem_map.mpr ⟨other, hother, hsame.trans hpair.symm⟩
      · have hfirst := sameWalk_driftedMid (m := m) hpair now
        rw [← hstate] at hfirst
        rw [if_neg hpair]
        rcases hrun : (legMid now leg).runOn m with ⟨c | mid, t⟩ <;> rw [hrun] at hfirst
        · exact .inl ⟨rfl, hfirst, fun _ => ⟨c, rfl⟩⟩
        · simp only
          rw [runOn_bind_pure_snd]
          rcases ih t hrest fun other hother => hbase other (List.mem_cons_of_mem leg hother)
            with ⟨hmid, hsame, hcrash⟩ | ⟨hmid, hsame⟩
          · refine .inl ⟨hmid, hfirst.trans hsame, fun hmem => ?_⟩
            rw [List.map_cons] at hmem
            obtain ⟨c, hc⟩ := hcrash ((List.mem_cons.mp hmem).resolve_left (Ne.symm hpair))
            refine ⟨c, ?_⟩
            rw [runOn_bind]
            rcases hothers : (rest.mapM (legMid now)).runOn t with ⟨c' | mids, t'⟩ <;>
              rw [hothers] at hc
            · exact hc
            · cases hc
          · obtain ⟨hsame', hwalk⟩ := hfirst.driftedMid now
            exact .inr ⟨by rw [hmid, hsame'], hwalk.trans hsame⟩

private theorem runOn_routeMid (m : SimulatedMarket) (route : Route) (now : Instant) :
    ((routeMid now route).runOn m).2 = ((route.legs.mapM (legMid now)).runOn m).2 ∧
      ∀ c, ((route.legs.mapM (legMid now)).runOn m).1 = .error c →
        ((routeMid now route).runOn m).1 = .error c := by
  cases route with
  | single leg =>
      rw [Route.legs, List.mapM_cons, List.mapM_nil, routeMid, runOn_bind]
      rcases (legMid now leg).runOn m with ⟨c | a, t⟩
      · exact ⟨rfl, fun c h => by cases h; rfl⟩
      · exact ⟨rfl, fun c h => by cases h⟩
  | bridge first second =>
      rw [Route.legs, List.mapM_cons, List.mapM_cons, List.mapM_nil, routeMid, runOn_bind, runOn_bind]
      rcases (legMid now first).runOn m with ⟨c | a, t⟩
      · exact ⟨rfl, fun c h => by cases h; rfl⟩
      · simp only
        rw [runOn_bind, runOn_bind, runOn_bind]
        rcases (legMid now second).runOn t with ⟨c | b, t'⟩
        · exact ⟨rfl, fun c h => by cases h; rfl⟩
        · exact ⟨rfl, fun c h => by cases h⟩

/-! ### What an event does to a walk -/

private theorem movesOn_serve (m : SimulatedMarket) (e : MarketEvent) : MovesOn m (m.serve e) := by
  obtain ⟨request, now⟩ := e
  cases request with
  | rate asked => exact (m.reads_price asked _).movesOn
  | setDrift other offset => exact m.movesOn_setDrift other offset _
  | resetDrift => exact ⟨rfl, rfl, fun _ _ => isInside_of_empty rfl⟩

private theorem settings_serve (m : SimulatedMarket) (e : MarketEvent) :
    (m.serve e).settings = m.settings :=
  (m.movesOn_serve e).settings_eq

theorem serve_rate (m : SimulatedMarket) (asked : CurrencyPair) (now : Instant) :
    m.serve ⟨.rate asked, now⟩ = (m.settings.route? asked).elim m fun route =>
      ((route.legs.mapM (legMid now)).runOn m).2 := by
  change ((price asked (.ok now)).runOn m).2 = _
  rw [runOn_price]
  cases m.settings.route? asked with
  | none => rfl
  | some route =>
      rw [Option.elim_some, ← (m.runOn_routeMid route now).1]
      simp only
      rcases (routeMid now route).runOn m with ⟨c | mid, t⟩ <;> rfl

private theorem nodup_legs {s : MarketSettings} {asked : CurrencyPair} {route : Route}
    (h : s.route? asked = some route) : (route.legs.map (·.base.pair)).Nodup := by
  cases route with
  | single leg => exact List.nodup_singleton _
  | bridge first second =>
      have hne := MarketSettings.base_pair_ne_of_bridge h
      exact List.nodup_cons.mpr ⟨fun hmem => hne (List.mem_singleton.mp hmem),
        List.nodup_singleton _⟩

private theorem obtained_rate (m : SimulatedMarket) (pair asked : CurrencyPair) (now : Instant) :
    m.obtained pair ⟨.rate asked, now⟩ =
      (m.settings.route? asked).bind fun route => midOf pair now route.legs m := rfl

/-- A price that is made of a base rate either reads it, as if it were asked for by itself, or crashes
before it comes to it and leaves its walk alone. -/
theorem serve_of_read (m : SimulatedMarket) (now : Instant) {asked : CurrencyPair} {base : BaseRate}
    (hbase : m.settings.baseRate? base.pair = some base)
    (hasked : base.pair ∈ (basesOf m.settings asked).map (·.pair)) :
    (m.obtained base.pair ⟨.rate asked, now⟩ = none ∧
      SameWalk base.pair m (m.serve ⟨.rate asked, now⟩) ∧
      ∃ c, ((price asked (.ok now)).runOn m).1 = .error c) ∨
    (m.obtained base.pair ⟨.rate asked, now⟩ = some ((driftedMid base now).runOn m).1 ∧
      SameWalk base.pair ((driftedMid base now).runOn m).2 (m.serve ⟨.rate asked, now⟩)) := by
  unfold basesOf at hasked
  cases hroute : m.settings.route? asked with
  | none =>
      rw [hroute] at hasked
      exact absurd hasked List.not_mem_nil
  | some route =>
      rw [hroute, Option.elim_some, List.map_map] at hasked
      have hobtained : m.obtained base.pair ⟨.rate asked, now⟩ =
          midOf base.pair now route.legs m := by
        rw [obtained_rate, hroute, Option.bind_some]
      rw [serve_rate, hobtained, hroute, Option.elim_some]
      have hown : ∀ leg ∈ route.legs, leg.base.pair = base.pair → leg.base = base := by
        intro leg hleg hsame
        have hfound := MarketSettings.baseRate?_of_route? hroute leg hleg
        rw [hsame, hbase] at hfound
        exact (Option.some.inj hfound).symm
      rcases midOf_cases m now (nodup_legs hroute) hown with
        ⟨hmid, hsame, hcrash⟩ | ⟨hmid, hsame⟩
      · refine .inl ⟨hmid, hsame, ?_⟩
        obtain ⟨c, hc⟩ := hcrash hasked
        refine ⟨c, ?_⟩
        have hcrashed := (m.runOn_routeMid route now).2 c hc
        rw [runOn_price, hroute]
        simp only
        rcases hrun : (routeMid now route).runOn m with ⟨c' | mid, t⟩ <;> rw [hrun] at hcrashed
        · cases hcrashed
          rfl
        · cases hcrashed
      · exact .inr ⟨hmid, hsame⟩

private theorem sameWalk_of_untouched (h : m.settings.touch? pair e = none) :
    SameWalk pair m (m.serve e) := by
  obtain ⟨request, now⟩ := e
  cases request with
  | rate asked =>
      rw [serve_rate]
      cases hroute : m.settings.route? asked with
      | none => exact .refl pair m
      | some route =>
          refine sameWalk_legMids fun leg hleg hpair => ?_
          have hmem : pair ∈ (basesOf m.settings asked).map (·.pair) := by
            rw [basesOf, hroute, Option.elim_some, List.map_map]
            exact List.mem_map.mpr ⟨leg, hleg, hpair⟩
          unfold MarketSettings.touch? at h
          simp only [if_pos hmem] at h
          cases h
  | setDrift other offset =>
      have hother : other ≠ pair := by
        rintro rfl
        unfold MarketSettings.touch? at h
        simp only [if_true] at h
        cases h
      change SameWalk pair m ((setDrift other offset (.ok now)).runOn m).2
      rw [runOn_setDrift]
      split_ifs
      · exact .refl pair m
      · exact .refl pair m
      · exact sameWalk_withWalk hother _
  | resetDrift => cases h

section Touches

variable {s : MarketSettings} {offset : Decimal}

private theorem touch?_eq_read (h : s.touch? pair e = some (.read now)) :
    ∃ asked, e = ⟨.rate asked, now⟩ ∧ pair ∈ (basesOf s asked).map (·.pair) := by
  obtain ⟨request, time⟩ := e
  cases request with
  | rate asked =>
      unfold MarketSettings.touch? at h
      simp only at h
      split_ifs at h with hmem
      cases h
      exact ⟨asked, rfl, hmem⟩
  | setDrift other offset =>
      unfold MarketSettings.touch? at h
      simp only at h
      split_ifs at h
      cases h
  | resetDrift => cases h

private theorem touch?_eq_override (h : s.touch? pair e = some (.override offset now)) :
    e = ⟨.setDrift pair offset, now⟩ := by
  obtain ⟨request, time⟩ := e
  cases request with
  | rate asked =>
      unfold MarketSettings.touch? at h
      simp only at h
      split_ifs at h
      cases h
  | setDrift other offset =>
      unfold MarketSettings.touch? at h
      simp only at h
      split_ifs at h with hsame
      cases h
      rw [hsame]
  | resetDrift => cases h

private theorem touch?_eq_reset (h : s.touch? pair e = some (.reset now)) : e = ⟨.resetDrift, now⟩ := by
  obtain ⟨request, time⟩ := e
  cases request with
  | rate asked =>
      unfold MarketSettings.touch? at h
      simp only at h
      split_ifs at h
      cases h
  | setDrift other offset =>
      unfold MarketSettings.touch? at h
      simp only at h
      split_ifs at h
      cases h
  | resetDrift =>
      cases h
      rfl

end Touches

/-- Two events that touch a walk alike, and both reach it or both do not, do the same to it and show the
same of it. -/
theorem sight_eq_of_touch {e' : MarketEvent} {touch : Touch} (hsame : SameWalk pair m m')
    (htouch : m.settings.touch? pair e = some touch)
    (htouch' : m.settings.touch? pair e' = some touch)
    (hreached : (m.sight pair touch e).isReached = (m'.sight pair touch e').isReached) :
    SameWalk pair (m.serve e) (m'.serve e') ∧ m.sight pair touch e = m'.sight pair touch e' := by
  have hsight : ∀ {mid mid' : Option (Except Crash Decimal)}, mid = mid' →
      SameWalk pair (m.serve e) (m'.serve e') →
      (⟨touch, (m.serve e).offset? pair, mid⟩ : Sight) =
        ⟨touch, (m'.serve e').offset? pair, mid'⟩ := by
    rintro mid _ rfl hafter
    rw [offset?, offset?, hafter.walk_eq]
  cases touch with
  | read now =>
      obtain ⟨asked, rfl, hmem⟩ := touch?_eq_read htouch
      obtain ⟨asked', rfl, hmem'⟩ := touch?_eq_read htouch'
      obtain ⟨base, hbase, rfl⟩ := List.mem_map.mp hmem
      have hfound := baseRate?_of_mem_basesOf hbase
      have hfound' := hfound
      rw [← hsame.settings_eq] at hmem' hfound'
      obtain ⟨hmids, hwalks⟩ := hsame.driftedMid now
      rcases serve_of_read m now hfound hmem with
          ⟨hmid, hafter, -⟩ | ⟨hmid, hafter⟩ <;>
        rcases serve_of_read m' now hfound' hmem' with
          ⟨hmid', hafter', -⟩ | ⟨hmid', hafter'⟩ <;>
        simp only [sight, Sight.isReached, hmid, hmid', Option.isSome_none, Option.isSome_some,
          Bool.false_eq_true, Bool.true_eq_false] at hreached
      · have hend := (hafter.symm.trans hsame).trans hafter'
        exact ⟨hend, hsight (hmid.trans hmid'.symm) hend⟩
      · have hend := (hafter.symm.trans hwalks).trans hafter'
        exact ⟨hend, hsight (by rw [hmid, hmid', hmids]) hend⟩
  | override offset now =>
      obtain rfl := touch?_eq_override htouch
      obtain rfl := touch?_eq_override htouch'
      have hend : SameWalk pair (m.serve ⟨.setDrift pair offset, now⟩)
          (m'.serve ⟨.setDrift pair offset, now⟩) := by
        change SameWalk pair ((setDrift pair offset (.ok now)).runOn m).2
          ((setDrift pair offset (.ok now)).runOn m').2
        rw [runOn_setDrift, runOn_setDrift, hsame.settings_eq, hsame.walk now]
        split_ifs
        · exact hsame
        · exact hsame
        · exact hsame.withWalk _
      exact ⟨hend, hsight rfl hend⟩
  | reset now =>
      obtain rfl := touch?_eq_reset htouch
      obtain rfl := touch?_eq_reset htouch'
      have hend : SameWalk pair (m.serve ⟨.resetDrift, now⟩) (m'.serve ⟨.resetDrift, now⟩) :=
        ⟨hsame.settings_eq, hsame.seed_eq, rfl⟩
      exact ⟨hend, hsight rfl hend⟩

/-! ### Histories -/

private theorem sights_cons_of_touch {touch : Touch} {rest : List MarketEvent}
    (h : m.settings.touch? pair e = some touch) :
    sights pair (e :: rest) m = m.sight pair touch e :: sights pair rest (m.serve e) := by
  rw [sights, h]

private theorem sights_cons_of_untouched {rest : List MarketEvent}
    (h : m.settings.touch? pair e = none) :
    sights pair (e :: rest) m = sights pair rest (m.serve e) := by
  rw [sights, h]

private theorem sights_of_untouched (m : SimulatedMarket) {history : List MarketEvent}
    (rest : List MarketEvent) (h : ∀ e ∈ history, m.settings.touch? pair e = none) :
    sights pair (history ++ rest) m = sights pair rest (m.run history) ∧
      SameWalk pair m (m.run history) := by
  induction history generalizing m with
  | nil => exact ⟨rfl, .refl pair m⟩
  | cons e later ih =>
      have hfirst := h e List.mem_cons_self
      obtain ⟨hsights, hsame⟩ := ih (m.serve e) (by
        rw [settings_serve]
        exact fun other hother => h other (List.mem_cons_of_mem e hother))
      rw [List.cons_append, sights_cons_of_untouched hfirst]
      exact ⟨hsights, (sameWalk_of_untouched hfirst).trans hsame⟩

/-- Runs that touch a walk alike, and reach it alike, show the same of it: by induction on the first
run, where the second is brought to the next event that touches the walk. -/
private theorem sights_eq_of_reached {history history' : List MarketEvent} (hsame : SameWalk pair m m')
    (htouches : m.settings.touches pair history = m.settings.touches pair history')
    (hreached : (sights pair history m).map Sight.isReached =
      (sights pair history' m').map Sight.isReached) :
    sights pair history m = sights pair history' m' := by
  induction history generalizing m m' history' with
  | nil =>
      have hnone := List.filterMap_eq_nil_iff.mp htouches.symm
      have hrest := (sights_of_untouched m' [] (by
        rw [hsame.settings_eq]
        exact hnone)).1
      rw [List.append_nil] at hrest
      rw [hrest]
      rfl
  | cons e later ih =>
      cases htouch : m.settings.touch? pair e with
      | none =>
          rw [sights_cons_of_untouched htouch] at hreached ⊢
          rw [MarketSettings.touches, List.filterMap_cons_none htouch] at htouches
          refine ih ((sameWalk_of_untouched htouch).symm.trans hsame) ?_ hreached
          rw [settings_serve]
          exact htouches
      | some touch =>
          rw [MarketSettings.touches, List.filterMap_cons_some htouch] at htouches
          obtain ⟨before, e', later', rfl, hbefore, htouch', hlater⟩ :=
            List.filterMap_eq_cons_iff.mp htouches.symm
          obtain ⟨hsights, hwalk⟩ := sights_of_untouched m' (e' :: later') (by
            rw [hsame.settings_eq]
            exact hbefore)
          have htouched : (m'.run before).settings.touch? pair e' = some touch := by
            rw [hwalk.settings_eq, hsame.settings_eq]
            exact htouch'
          rw [hsights, sights_cons_of_touch htouch, sights_cons_of_touch htouched] at hreached ⊢
          obtain ⟨hfirst, hothers⟩ := List.cons.inj hreached
          obtain ⟨hafter, hsight⟩ :=
            sight_eq_of_touch (hsame.trans hwalk) htouch htouch' hfirst
          rw [hsight, ih hafter (by rw [settings_serve]; exact hlater.symm) hothers]

private theorem isReached_of_answers {history : List MarketEvent} (h : Answers pair history m) :
    (sights pair history m).map Sight.isReached =
      (m.settings.touches pair history).map fun _ => true := by
  induction history generalizing m with
  | nil => rfl
  | cons e later ih =>
      obtain ⟨hfirst, hlater⟩ := h
      have hothers := ih hlater
      rw [settings_serve] at hothers
      cases htouch : m.settings.touch? pair e with
      | none =>
          rw [sights_cons_of_untouched htouch, MarketSettings.touches, List.filterMap_cons_none htouch]
          exact hothers
      | some touch =>
          rw [sights_cons_of_touch htouch, MarketSettings.touches, List.filterMap_cons_some htouch]
          refine congrArg₂ List.cons ?_ hothers
          cases touch with
          | override offset now => rfl
          | reset now => rfl
          | read now =>
              obtain ⟨asked, rfl, hmem⟩ := touch?_eq_read htouch
              obtain ⟨reply, hreply⟩ := hfirst asked rfl hmem
              obtain ⟨base, hbase, rfl⟩ := List.mem_map.mp hmem
              rcases serve_of_read m now (baseRate?_of_mem_basesOf hbase) hmem with
                ⟨-, -, c, hcrash⟩ | ⟨hmid, -⟩
              · cases hcrash.symm.trans hreply
              · simp only [sight, Sight.isReached, hmid, Option.isSome_some]

private theorem resetDrift_run {s : MarketSettings} {seed : UInt64} (hseed : s.seed = some seed)
    {entropy entropy' : UInt64} (hm : make s entropy = .ok m) (hm' : make s entropy' = .ok m')
    (history : List MarketEvent) : (m.run history).resetDrift = m' := by
  have hmoves : ∀ k : SimulatedMarket, MovesOn k (k.run history) := by
    induction history with
    | nil => exact .refl
    | cons e later ih => exact fun k => (k.movesOn_serve e).trans (ih _)
  have hrun := hmoves m
  obtain ⟨-, rfl⟩ := make_eq_ok hm
  obtain ⟨-, rfl⟩ := make_eq_ok hm'
  rw [resetDrift, hrun.settings_eq, hrun.seed_eq, hseed]
  rfl

/-- With a fixed seed, what is seen of a base rate depends on what touches its walk, and on which of
these readings reach it, and on nothing else; all of them do where no such price crashes. After a reset
a market is as good as new. -/
theorem walks_independent {s : MarketSettings} {seed : UInt64} (hseed : s.seed = some seed)
    {entropy entropy' : UInt64} (hm : make s entropy = .ok m) (hm' : make s entropy' = .ok m')
    (pair : CurrencyPair) :
    (∀ history history', s.touches pair history = s.touches pair history' →
      (sights pair history m = sights pair history' m' ↔
        (sights pair history m).map Sight.isReached =
          (sights pair history' m').map Sight.isReached) ∧
      (Answers pair history m → Answers pair history' m' →
        sights pair history m = sights pair history' m')) ∧
    ∀ history, (m.run history).resetDrift = m' := by
  refine ⟨fun history history' htouches => ?_, resetDrift_run hseed hm hm'⟩
  have hsame : SameWalk pair m m' := by
    have heq := resetDrift_run hseed hm hm' []
    obtain ⟨-, rfl⟩ := make_eq_ok hm
    rw [← heq]
    exact .refl pair _
  have hsettings : m.settings = s := by
    obtain ⟨-, rfl⟩ := make_eq_ok hm
    rfl
  have htouches' : m.settings.touches pair history = m.settings.touches pair history' := by
    rw [hsettings]
    exact htouches
  refine ⟨⟨fun heq => by rw [heq], sights_eq_of_reached hsame htouches'⟩, fun h h' => ?_⟩
  refine sights_eq_of_reached hsame htouches' ?_
  rw [isReached_of_answers h, isReached_of_answers h', htouches', hsame.settings_eq]

/-! ### A base rate next to another -/

def cheapEuro : BaseRate := ⟨⟨⟨"USD"⟩, ⟨"EUR"⟩⟩, (Decimal.ofParts? 4 1).getD Decimal.one, none⟩

def pound : BaseRate := ⟨⟨⟨"USD"⟩, ⟨"GBP"⟩⟩, Decimal.one, none⟩

def dollarSettings : MarketSettings :=
  { MarketSettings.standard with baseRates := [cheapEuro, pound], seed := some 1 }

def almostAll : Decimal := ((Decimal.ofParts? (10 ^ 28 - 1) 28).getD Decimal.one).neg

def freshDollars : SimulatedMarket := ⟨dollarSettings, 1, ∅⟩

theorem make_freshDollars : make dollarSettings 0 = .ok freshDollars :=
  make_of_validate (by decide +kernel) 0

/-- The pound is seen alike whether or not an offset of the euro is set in between. -/
theorem walks_independent_pound :
    let now : Instant := ⟨0, by decide⟩
    let later : Instant := ⟨10000000000, by decide⟩
    let history : List MarketEvent := [⟨.setDrift pound.pair Decimal.twoPercent, now⟩,
      ⟨.setDrift cheapEuro.pair almostAll, now⟩, ⟨.rate pound.pair, later⟩]
    let history' : List MarketEvent := [⟨.setDrift pound.pair Decimal.twoPercent, now⟩,
      ⟨.rate pound.pair, later⟩]
    sights pound.pair history freshDollars = sights pound.pair history' freshDollars ∧
      (freshDollars.run history).resetDrift = freshDollars := by
  intro now later history history'
  obtain ⟨hsights, hreset⟩ :=
    walks_independent (rfl : dollarSettings.seed = some 1) make_freshDollars make_freshDollars
      pound.pair
  exact ⟨(hsights history history' (by decide +kernel)).1.mpr (by decide +kernel), hreset history⟩

theorem runOn_legMid_lost {m : SimulatedMarket} {now : Instant}
    (hwalk : m.walk cheapEuro.pair now = (Walk.start now).override almostAll now) :
    ∃ k, (legMid now (.inverse cheapEuro)).runOn m = (.error .arithmetic, k) := by
  have hnothing : ((Decimal.one.add? almostAll).bind cheapEuro.mid.mul?).bind Decimal.one.div? = none ∧
      (Decimal.one.add? almostAll).bind cheapEuro.mid.mul? ≠ none := by decide +kernel
  obtain ⟨mid, hmid⟩ := Option.ne_none_iff_exists'.mp hnothing.2
  have hdiv := hnothing.1
  rw [hmid, Option.bind_some] at hdiv
  refine ⟨_, Prod.ext ?_ rfl⟩
  rw [legMid, runOn_bind, runOn_driftedMid, hwalk, Walk.after?_of_not_due rfl]
  simp only [Walk.override]
  rw [hmid]
  simp only [Crash.unless]
  rw [hdiv]
  rfl

theorem runOn_setDrift_almostAll (now : Instant) :
    (setDrift cheapEuro.pair almostAll (.ok now)).runOn freshDollars =
      (.ok (.ok ()),
        freshDollars.withWalk cheapEuro.pair ((Walk.start now).override almostAll now)) :=
  runOn_setDrift_fresh rfl (by decide +kernel) (by decide +kernel) now

private theorem route?_euro_pound : dollarSettings.route? ⟨⟨"EUR"⟩, ⟨"GBP"⟩⟩ =
    some (.bridge (.inverse cheapEuro) (.direct pound)) := by decide +kernel

/-- A euro in pounds is priced over both base rates. Where the euro cannot be priced the pound is not
read, and its walk does not start. -/
theorem not_independent_of_crash :
    let now : Instant := ⟨0, by decide⟩
    let ask : MarketEvent := ⟨.rate ⟨⟨"EUR"⟩, ⟨"GBP"⟩⟩, now⟩
    let lose : MarketEvent := ⟨.setDrift cheapEuro.pair almostAll, now⟩
    dollarSettings.touches pound.pair [lose, ask] = dollarSettings.touches pound.pair [ask] ∧
      (sights pound.pair [lose, ask] freshDollars).map (·.offset) = [none] ∧
      (sights pound.pair [ask] freshDollars).map (·.offset) = [some Decimal.zero] := by
  intro now ask lose
  have hfound : dollarSettings.baseRate? pound.pair = some pound := by decide +kernel
  have hread : pound.pair ∈ (basesOf dollarSettings ⟨⟨"EUR"⟩, ⟨"GBP"⟩⟩).map (·.pair) := by
    decide +kernel
  have hne : (Leg.inverse cheapEuro).base.pair ≠ pound.pair := by decide
  have hasks : dollarSettings.touch? pound.pair ask = some (.read now) := by decide +kernel
  have hloses : dollarSettings.touch? pound.pair lose = none := by decide +kernel
  refine ⟨?_, ?_, ?_⟩
  · rw [MarketSettings.touches, List.filterMap_cons_none hloses]
    rfl
  · let m := freshDollars.withWalk cheapEuro.pair ((Walk.start now).override almostAll now)
    have hset : freshDollars.serve lose = m :=
      congrArg Prod.snd (runOn_setDrift_almostAll now)
    have hwalk : m.walk cheapEuro.pair now = (Walk.start now).override almostAll now := by
      rw [walk_withWalk, if_pos rfl]
    obtain ⟨k, hcrash⟩ := runOn_legMid_lost hwalk
    have hmissed : m.obtained pound.pair ask = none := by
      rw [obtained_rate]
      change (dollarSettings.route? ⟨⟨"EUR"⟩, ⟨"GBP"⟩⟩).bind _ = none
      rw [route?_euro_pound, Option.bind_some, Route.legs, midOf, if_neg hne, hcrash]
    have hlost : m.walks[pound.pair]? = none := by
      rw [getElem?_withWalk]
      exact (if_neg hne).trans Std.HashMap.getElem?_empty
    rcases serve_of_read m now hfound hread with ⟨-, hsame, -⟩ | ⟨hmid, -⟩
    · rw [sights_cons_of_untouched hloses, hset, sights_cons_of_touch hasks]
      change [(m.serve ask).walks[pound.pair]?.map (·.offset)] = _
      rw [hsame.walk_eq, hlost]
      rfl
    · cases hmissed.symm.trans hmid
  · have hfirst : ∃ price k, (legMid now (.inverse cheapEuro)).runOn freshDollars = (.ok price, k) := by
      have hown := reading?_fresh (m := freshDollars) rfl cheapEuro now (by decide +kernel)
      obtain ⟨price, hprice⟩ : ∃ price, Decimal.one.div? cheapEuro.mid = some price :=
        Option.ne_none_iff_exists'.mp (by decide +kernel)
      exact ⟨price, _, runOn_legMid_eq_ok.mpr ⟨_, hown, hprice⟩⟩
    obtain ⟨price, k, hprice⟩ := hfirst
    have hobtained : freshDollars.obtained pound.pair ask ≠ none := by
      rw [obtained_rate]
      change (dollarSettings.route? ⟨⟨"EUR"⟩, ⟨"GBP"⟩⟩).bind _ ≠ none
      rw [route?_euro_pound, Option.bind_some, Route.legs, midOf, if_neg hne, hprice]
      simp only
      rw [midOf, Leg.base, if_pos rfl]
      exact Option.some_ne_none _
    rcases serve_of_read freshDollars now hfound hread with
      ⟨hmissed, -⟩ | ⟨-, hsame⟩
    · exact absurd hmissed hobtained
    · rw [sights_cons_of_touch hasks]
      change [(freshDollars.serve ask).walks[pound.pair]?.map (·.offset)] = _
      rw [hsame.walk_eq, runOn_driftedMid, walk_fresh rfl, Walk.after?_of_not_due rfl]
      simp only
      rw [getElem?_withWalk_self]
      rfl

end SimulatedMarket

end Bureau
