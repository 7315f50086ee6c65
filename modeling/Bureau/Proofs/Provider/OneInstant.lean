import Bureau.Proofs.Provider.Readings
import Bureau.Proofs.Random.Unit

/-!
Prices of one instant. A base rate that is read over and over at one time has one offset and one mid,
unless its walk has been left alone for a whole interval since its offset was set: then the first
reading shows the offset that was set and leaves the walk due, and the second one takes a step.
-/

set_option autoImplicit false

namespace Bureau

open Attempt

/-! ### Readings of one walk -/

namespace Walk

variable {w w' : Walk} {drift : Drift} {unit : Nat → Decimal} {now : Instant}

/-- An offset that was set is overdue if an interval has gone by before anyone has read it. -/
def IsOverdue (w : Walk) (drift : Drift) (now : Instant) : Prop :=
  w.pinned = true ∧ drift.enabled = true ∧ drift.interval ≤ now.since w.lastUpdate

/-- A walk that is settled at a time is not moved by reading it then. -/
def IsSettled (w : Walk) (drift : Drift) (now : Instant) : Prop :=
  w.pinned = false ∧ w.isDue drift now = false

private theorem IsSettled.after?_eq (h : w.IsSettled drift now) : w.after? drift unit now = some w := by
  obtain ⟨hpinned, hdue⟩ := h
  rw [after?_of_not_due hdue]
  cases w
  cases hpinned
  rfl

private theorem isSettled_of_due (hinterval : Duration.zero < drift.interval)
    (hdue : w.isDue drift now = true) (h : w.after? drift unit now = some w') :
    w'.IsSettled drift now ∧ w.stepped? drift (unit w.draws) = some w'.offset := by
  obtain ⟨hnot, -⟩ | ⟨-, offset, hstep, rfl⟩ := after?_eq_some h
  · cases hnot.symm.trans hdue
  · obtain ⟨hpinned, -, -⟩ := isDue_iff.mp hdue
    refine ⟨⟨hpinned, ?_⟩, hstep⟩
    rw [← Bool.not_eq_true, isDue_iff]
    rintro ⟨-, -, hle⟩
    have hnow : (now.since now).nanos = 0 := sub_self _
    have hpos : 0 < drift.interval.nanos := hinterval
    have hle : drift.interval.nanos ≤ (now.since now).nanos := hle
    omega

private theorem isSettled_of_not_overdue (hinterval : Duration.zero < drift.interval)
    (hoverdue : ¬ w.IsOverdue drift now) (h : w.after? drift unit now = some w') :
    w'.IsSettled drift now := by
  obtain ⟨hdue, rfl⟩ | ⟨hdue, -⟩ := after?_eq_some h
  · refine ⟨rfl, ?_⟩
    rw [← Bool.not_eq_true, isDue_iff] at hdue ⊢
    rintro ⟨-, henabled, hle⟩
    cases hpinned : w.pinned with
    | true => exact hoverdue ⟨hpinned, henabled, hle⟩
    | false => exact hdue ⟨hpinned, henabled, hle⟩
  · exact (isSettled_of_due hinterval hdue h).1

private theorem IsOverdue.after?_eq (h : w.IsOverdue drift now) (unit : Nat → Decimal) :
    w.after? drift unit now = some { w with pinned := false } ∧
      Walk.isDue { w with pinned := false } drift now = true := by
  obtain ⟨hpinned, henabled, hle⟩ := h
  refine ⟨after?_of_not_due ?_, isDue_iff.mpr ⟨rfl, henabled, hle⟩⟩
  rw [← Bool.not_eq_true, isDue_iff, hpinned]
  rintro ⟨⟨⟩, -⟩

/-! ### Reading one walk over and over -/

/-- Reads a walk several times at one time: the offsets, and what becomes of the walk. -/
def reads? (w : Walk) (drift : Drift) (unit : Nat → Decimal) (now : Instant) :
    Nat → Option (List Decimal × Walk)
  | 0 => some ([], w)
  | count + 1 => do
      let first ← w.after? drift unit now
      let (others, last) ← first.reads? drift unit now count
      return (first.offset :: others, last)

variable {count : Nat} {offsets : List Decimal}

private theorem reads?_succ_eq_some (h : w.reads? drift unit now (count + 1) = some (offsets, w')) :
    ∃ first others, w.after? drift unit now = some first ∧
      first.reads? drift unit now count = some (others, w') ∧ offsets = first.offset :: others := by
  obtain ⟨first, hfirst, h⟩ := Option.bind_eq_some_iff.mp h
  obtain ⟨⟨others, last⟩, hothers, h⟩ := Option.bind_eq_some_iff.mp h
  cases h
  exact ⟨first, others, hfirst, hothers, rfl⟩

private theorem IsSettled.eq_replicate (hsettled : w.IsSettled drift now)
    (h : w.reads? drift unit now count = some (offsets, w')) :
    offsets = List.replicate count w.offset := by
  induction count generalizing offsets with
  | zero =>
      cases h
      rfl
  | succ count ih =>
      obtain ⟨first, others, hfirst, hothers, rfl⟩ := reads?_succ_eq_some h
      rw [hsettled.after?_eq] at hfirst
      cases hfirst
      rw [ih hothers, List.replicate_succ]

private theorem eq_replicate_of_not_overdue (hinterval : Duration.zero < drift.interval)
    (hoverdue : ¬ w.IsOverdue drift now) (h : w.reads? drift unit now count = some (offsets, w')) :
    ∃ offset, offsets = List.replicate count offset := by
  cases count with
  | zero =>
      cases h
      exact ⟨Decimal.zero, rfl⟩
  | succ count =>
      obtain ⟨first, others, hfirst, hothers, rfl⟩ := reads?_succ_eq_some h
      have hsettled := isSettled_of_not_overdue hinterval hoverdue hfirst
      exact ⟨first.offset, by rw [hsettled.eq_replicate hothers, List.replicate_succ]⟩

private theorem IsOverdue.eq_cons (hinterval : Duration.zero < drift.interval)
    (hoverdue : w.IsOverdue drift now)
    (h : w.reads? drift unit now (count + 2) = some (offsets, w')) :
    ∃ offset, w.stepped? drift (unit w.draws) = some offset ∧
      offsets = w.offset :: List.replicate (count + 1) offset := by
  obtain ⟨hafter, hdue⟩ := hoverdue.after?_eq unit
  obtain ⟨first, others, hfirst, hothers, rfl⟩ := reads?_succ_eq_some h
  rw [hafter] at hfirst
  cases hfirst
  obtain ⟨second, rest, hsecond, hrest, rfl⟩ := reads?_succ_eq_some hothers
  obtain ⟨hsettled, hstep⟩ := isSettled_of_due hinterval hdue hsecond
  refine ⟨second.offset, hstep, ?_⟩
  rw [hsettled.eq_replicate hrest, List.replicate_succ]

/-- Several readings of a walk at one time show one offset, unless the first of them leaves the walk due
and the step that comes next goes somewhere. -/
theorem reads?_agree_iff (hinterval : Duration.zero < drift.interval)
    (h : w.reads? drift unit now count = some (offsets, w')) :
    (∀ a ∈ offsets, ∀ b ∈ offsets, a.value = b.value) ↔
      ¬ w.IsOverdue drift now ∨ count ≤ 1 ∨
        ∀ offset, w.stepped? drift (unit w.draws) = some offset → offset.value = w.offset.value := by
  by_cases hoverdue : w.IsOverdue drift now
  · match count with
    | 0 =>
        cases h
        simp
    | 1 =>
        obtain ⟨first, others, -, hothers, rfl⟩ := reads?_succ_eq_some h
        cases hothers
        simp
    | count + 2 =>
        obtain ⟨offset, hstep, rfl⟩ := hoverdue.eq_cons hinterval h
        have hcount : ¬ count + 2 ≤ 1 := by omega
        simp only [hoverdue, not_true_eq_false, hcount, false_or, hstep, Option.some.injEq]
        constructor
        · rintro hagree _ rfl
          exact hagree _ (by simp) _ (by simp)
        · intro hsame a ha b hb
          have hvalue : ∀ c ∈ w.offset :: List.replicate (count + 1) offset,
              c.value = w.offset.value := by
            intro c hc
            rcases List.mem_cons.mp hc with rfl | hc
            · rfl
            · rw [List.eq_of_mem_replicate hc, hsame offset rfl]
          rw [hvalue a ha, hvalue b hb]
  · refine ⟨fun _ => .inl hoverdue, fun _ a ha b hb => ?_⟩
    obtain ⟨offset, rfl⟩ := eq_replicate_of_not_overdue hinterval hoverdue h
    rw [List.eq_of_mem_replicate ha, List.eq_of_mem_replicate hb]

end Walk

private theorem BaseRate.value_mid_eq {base : BaseRate} {offset other mid mid' : Decimal}
    (hoffset : offset.value = other.value)
    (hmid : (Decimal.one.add? offset).bind base.mid.mul? = some mid)
    (hmid' : (Decimal.one.add? other).bind base.mid.mul? = some mid') : mid.value = mid'.value := by
  obtain ⟨factor, hfactor, hproduct⟩ := Option.bind_eq_some_iff.mp hmid
  obtain ⟨factor', hfactor', hproduct'⟩ := Option.bind_eq_some_iff.mp hmid'
  have hfactors : factor.value = factor'.value := by
    refine (Decimal.rounds_add? hfactor).value_eq ?_
    rw [hoffset]
    exact Decimal.rounds_add? hfactor'
  refine (Decimal.rounds_mul? hproduct).value_eq ?_
  rw [hfactors]
  exact Decimal.rounds_mul? hproduct'

namespace SimulatedMarket

variable {m m' : SimulatedMarket} {now : Instant} {base : BaseRate} {pair : CurrencyPair}

/-! ### Readings of one base rate -/

def readingsOf (pair : CurrencyPair) (rs : List Reading) : List Reading :=
  rs.filter (·.base.pair = pair)

variable {bases : List BaseRate} {rs : List Reading}

private theorem reads?_of_readings? (h : m.readings? now bases = some (rs, m')) (pair : CurrencyPair) :
    (m.walk pair now).reads? m.settings.drift (m.unit pair) now (readingsOf pair rs).length =
      some ((readingsOf pair rs).map (·.offset), m'.walk pair now) := by
  induction bases generalizing m rs with
  | nil =>
      cases h
      rfl
  | cons base rest ih =>
      obtain ⟨first, others, k, hfirst, hothers, rfl⟩ := readings?_cons_eq_some h
      obtain ⟨hafter, hbase, -, -, rfl⟩ := reading?_eq_some.mp hfirst
      have hrest := ih hothers
      change Walk.reads? _ m.settings.drift (m.unit pair) now _ = _ at hrest
      rw [walk_withWalk] at hrest
      by_cases hpair : base.pair = pair
      · subst hpair
        rw [if_pos rfl] at hrest
        have hreadings : readingsOf base.pair (first :: others) =
            first :: readingsOf base.pair others :=
          List.filter_cons_of_pos (by rw [hbase]; exact decide_eq_true rfl)
        rw [hreadings, List.length_cons, List.map_cons, Walk.reads?]
        simp only [hafter, Option.bind_eq_bind, Option.bind_some, hrest, Option.pure_def]
        rfl
      · rw [if_neg hpair] at hrest
        have hreadings : readingsOf pair (first :: others) = readingsOf pair others :=
          List.filter_cons_of_neg (by rw [hbase]; simpa using hpair)
        rw [hreadings, hrest]

private theorem map_base_of_readings? (h : m.readings? now bases = some (rs, m')) :
    rs.map (·.base) = bases := by
  induction bases generalizing m rs with
  | nil =>
      cases h
      rfl
  | cons base rest ih =>
      obtain ⟨first, others, k, hfirst, hothers, rfl⟩ := readings?_cons_eq_some h
      obtain ⟨-, hbase, -⟩ := reading?_eq_some.mp hfirst
      rw [List.map_cons, hbase, ih hothers]

private theorem mid_of_readings? (h : m.readings? now bases = some (rs, m')) :
    ∀ r ∈ rs, (Decimal.one.add? r.offset).bind r.base.mid.mul? = some r.mid := by
  induction bases generalizing m rs with
  | nil =>
      cases h
      exact fun r hr => absurd hr List.not_mem_nil
  | cons base rest ih =>
      obtain ⟨first, others, k, hfirst, hothers, rfl⟩ := readings?_cons_eq_some h
      intro r hr
      rcases List.mem_cons.mp hr with rfl | hr
      · obtain ⟨-, hbase, -, hmid, -⟩ := reading?_eq_some.mp hfirst
        rw [hbase]
        exact hmid
      · exact ih hothers r hr

private theorem readings?_append {others : List BaseRate} {rs' : List Reading} {k : SimulatedMarket}
    (h : m.readings? now bases = some (rs, k)) (h' : k.readings? now others = some (rs', m')) :
    m.readings? now (bases ++ others) = some (rs ++ rs', m') := by
  induction bases generalizing m rs with
  | nil =>
      cases h
      exact h'
  | cons base rest ih =>
      obtain ⟨first, tail, l, hfirst, htail, rfl⟩ := readings?_cons_eq_some h
      simp only [List.cons_append, readings?, hfirst, Option.bind_eq_bind, Option.bind_some,
        ih htail, Option.pure_def]

/-! ### Prices asked for at one time -/

/-- A price that was asked for: the pair, the answer, and the readings that it was made of. -/
structure Fetch where
  pair : CurrencyPair
  reply : Except FxError Rate
  readings : List Reading

/-- Prices asked for at one time, one after the other. -/
inductive Fetches (now : Instant) : SimulatedMarket → List Fetch → SimulatedMarket → Prop where
  | nil (m : SimulatedMarket) : Fetches now m [] m
  | cons {m k m' : SimulatedMarket} {fetch : Fetch} {rest : List Fetch}
      (hprice : (price fetch.pair (.ok now)).runOn m = (.ok fetch.reply, k))
      (hcomes : m.ComesOf fetch.pair now fetch.reply fetch.readings k)
      (hrest : Fetches now k rest m') : Fetches now m (fetch :: rest) m'

def allReadings (fetches : List Fetch) : List Reading := fetches.flatMap (·.readings)

/-- Readings that show the same offset and the same mid. -/
def Agree (rs : List Reading) : Prop :=
  ∀ r ∈ rs, ∀ s ∈ rs, r.offset.sameValue s.offset = true ∧ r.mid.sameValue s.mid = true

private theorem settings_eq_of_price {reply : Except FxError Rate} {k : SimulatedMarket}
    (h : (price pair (.ok now)).runOn m = (.ok reply, k)) : k.settings = m.settings := by
  have hsettings := m.settings_price pair now
  rw [h] at hsettings
  exact hsettings

namespace Fetches

variable {fetches : List Fetch}

private theorem exists_readings? (h : Fetches now m fetches m') :
    ∃ bases, (∀ base ∈ bases, m.settings.baseRate? base.pair = some base) ∧
      m.readings? now bases = some (allReadings fetches, m') := by
  induction h with
  | nil m => exact ⟨[], nofun, rfl⟩
  | @cons m k m' fetch rest hprice hcomes hrest ih =>
      obtain ⟨bases, hbases, hreadings⟩ := ih
      rw [settings_eq_of_price hprice] at hbases
      refine ⟨basesOf m.settings fetch.pair ++ bases, fun base hbase => ?_,
        readings?_append hcomes.readings hreadings⟩
      rcases List.mem_append.mp hbase with hfirst | hother
      · exact baseRate?_of_mem_basesOf hfirst
      · exact hbases base hother

private theorem exists_comesOf (h : Fetches now m fetches m') :
    ∀ fetch ∈ fetches, ∃ k k' : SimulatedMarket, k.settings = m.settings ∧
      k.ComesOf fetch.pair now fetch.reply fetch.readings k' := by
  induction h with
  | nil m => exact fun fetch hfetch => absurd hfetch List.not_mem_nil
  | @cons m k m' fetch rest hprice hcomes hrest ih =>
      intro other hother
      rcases List.mem_cons.mp hother with rfl | hmem
      · exact ⟨m, k, rfl, hcomes⟩
      · obtain ⟨l, l', hsettings, hl⟩ := ih other hmem
        exact ⟨l, l', hsettings.trans (settings_eq_of_price hprice), hl⟩

private theorem base_eq (h : Fetches now m fetches m') {r s : Reading} (hr : r ∈ allReadings fetches)
    (hs : s ∈ allReadings fetches) (hpair : r.base.pair = s.base.pair) : r.base = s.base := by
  obtain ⟨bases, hbases, hreadings⟩ := h.exists_readings?
  have hmem : ∀ t ∈ allReadings fetches, m.settings.baseRate? t.base.pair = some t.base := by
    intro t ht
    refine hbases t.base ?_
    rw [← map_base_of_readings? hreadings]
    exact List.mem_map_of_mem ht
  have hsame := hmem r hr
  rw [hpair, hmem s hs] at hsame
  exact (Option.some.inj hsame).symm

private theorem mid_eq (h : Fetches now m fetches m') {r : Reading} (hr : r ∈ allReadings fetches) :
    (Decimal.one.add? r.offset).bind r.base.mid.mul? = some r.mid := by
  obtain ⟨bases, -, hreadings⟩ := h.exists_readings?
  exact mid_of_readings? hreadings r hr

private theorem agree_iff (h : Fetches now m fetches m') (pair : CurrencyPair) :
    Agree (readingsOf pair (allReadings fetches)) ↔
      ∀ a ∈ (readingsOf pair (allReadings fetches)).map (·.offset),
        ∀ b ∈ (readingsOf pair (allReadings fetches)).map (·.offset), a.value = b.value := by
  simp only [List.forall_mem_map, Agree, Decimal.sameValue_iff]
  refine ⟨fun hagree r hr s hs => (hagree r hr s hs).1, fun hoffsets r hr s hs => ?_⟩
  have hoffset := hoffsets r hr s hs
  obtain ⟨hr, hpair⟩ := List.mem_filter.mp hr
  obtain ⟨hs, hpair'⟩ := List.mem_filter.mp hs
  have hbase : r.base = s.base :=
    h.base_eq hr hs ((of_decide_eq_true hpair).trans (of_decide_eq_true hpair').symm)
  have hmid := h.mid_eq hr
  rw [hbase] at hmid
  exact ⟨hoffset, BaseRate.value_mid_eq hoffset hmid (h.mid_eq hs)⟩

private theorem exists_mid (hinterval : Duration.zero < m.settings.drift.interval)
    (h : Fetches now m fetches m') (pair : CurrencyPair)
    (hoverdue : ¬ (m.walk pair now).IsOverdue m.settings.drift now) :
    ∃ mid, ∀ r ∈ allReadings fetches, r.base.pair = pair → r.mid = mid := by
  obtain ⟨bases, -, hreadings⟩ := h.exists_readings?
  obtain ⟨offset, hoffsets⟩ :=
    Walk.eq_replicate_of_not_overdue hinterval hoverdue (reads?_of_readings? hreadings pair)
  have hoffset : ∀ r ∈ allReadings fetches, r.base.pair = pair → r.offset = offset := by
    intro r hr hpair
    have hmem : r ∈ readingsOf pair (allReadings fetches) :=
      List.mem_filter.mpr ⟨hr, decide_eq_true hpair⟩
    have hmap := List.mem_map_of_mem (f := (·.offset)) hmem
    rw [hoffsets] at hmap
    exact List.eq_of_mem_replicate hmap
  by_cases hread : ∃ s ∈ allReadings fetches, s.base.pair = pair
  · obtain ⟨s, hs, hpair⟩ := hread
    refine ⟨s.mid, fun r hr hpair' => ?_⟩
    have hmid := h.mid_eq hr
    rw [h.base_eq hr hs (hpair'.trans hpair.symm), hoffset r hr hpair', ← hoffset s hs hpair,
      h.mid_eq hs] at hmid
    exact (Option.some.inj hmid).symm
  · exact ⟨Decimal.zero, fun r hr hpair => absurd ⟨r, hr, hpair⟩ hread⟩

/-- Where no pair that is read is overdue, every rate is made of one table of mids. -/
theorem exists_mids (hinterval : Duration.zero < m.settings.drift.interval)
    (h : Fetches now m fetches m')
    (hoverdue : ∀ r ∈ allReadings fetches,
      ¬ (m.walk r.base.pair now).IsOverdue m.settings.drift now) :
    ∃ mids : CurrencyPair → Decimal, ∀ fetch ∈ fetches, ∀ rate, fetch.reply = .ok rate →
      ∃ route, m.settings.route? fetch.pair = some route ∧
        route.price? (route.legs.map fun leg => mids leg.base.pair) = some rate.mid := by
  have hmid : ∀ pair, ∃ mid, ∀ r ∈ allReadings fetches, r.base.pair = pair → r.mid = mid := by
    intro pair
    by_cases hread : ∃ s ∈ allReadings fetches, s.base.pair = pair
    · obtain ⟨s, hs, rfl⟩ := hread
      exact h.exists_mid hinterval s.base.pair (hoverdue s hs)
    · exact ⟨Decimal.zero, fun r hr hpair => absurd ⟨r, hr, hpair⟩ hread⟩
  choose mids hmids using hmid
  refine ⟨mids, fun fetch hfetch rate hreply => ?_⟩
  obtain ⟨k, k', hsettings, hcomes⟩ := h.exists_comesOf fetch hfetch
  obtain ⟨route, hroute, hprice, -⟩ := hcomes.rate rate hreply
  rw [hsettings] at hroute
  have hbases := map_base_of_readings? hcomes.readings
  rw [hsettings, basesOf, hroute] at hbases
  have hmap : fetch.readings.map (·.mid) = route.legs.map fun leg => mids leg.base.pair := by
    calc fetch.readings.map (·.mid)
        = fetch.readings.map fun r => mids r.base.pair := List.map_congr_left fun r hr =>
          hmids r.base.pair r (List.mem_flatMap.mpr ⟨fetch, hfetch, hr⟩) rfl
      _ = (fetch.readings.map (·.base)).map fun base => mids base.pair := by
          rw [List.map_map]
          rfl
      _ = route.legs.map fun leg => mids leg.base.pair := by
          rw [hbases, Option.elim_some, List.map_map]
          rfl
  exact ⟨route, hroute, hmap ▸ hprice⟩

end Fetches

/-- Prices of one time are made of the same mids: the readings of a base rate differ only where its
first reading leaves an offset that was set by hand due for a step, a second reading takes that step,
and the step goes somewhere. Where no base rate that is read is overdue, all rates derive from one
table. -/
theorem prices_agree_iff (hinterval : Duration.zero < m.settings.drift.interval)
    {fetches : List Fetch} (h : Fetches now m fetches m') :
    (∀ pair, Agree (readingsOf pair (allReadings fetches)) ↔
      ¬ (m.walk pair now).IsOverdue m.settings.drift now ∨
      (readingsOf pair (allReadings fetches)).length ≤ 1 ∨
      ∀ offset, (m.walk pair now).stepped? m.settings.drift
          (m.unit pair (m.walk pair now).draws) = some offset →
        offset.value = (m.walk pair now).offset.value) ∧
    ((∀ r ∈ allReadings fetches, ¬ (m.walk r.base.pair now).IsOverdue m.settings.drift now) →
      ∃ mids : CurrencyPair → Decimal, ∀ fetch ∈ fetches, ∀ rate, fetch.reply = .ok rate →
        ∃ route, m.settings.route? fetch.pair = some route ∧
          route.price? (route.legs.map fun leg => mids leg.base.pair) = some rate.mid) := by
  refine ⟨fun pair => ?_, h.exists_mids hinterval⟩
  obtain ⟨bases, -, hreadings⟩ := h.exists_readings?
  rw [h.agree_iff pair]
  exact Walk.reads?_agree_iff hinterval (reads?_of_readings? hreadings pair)

/-! ### An offset that was set and left alone -/

private theorem readings_eq_of_single {r : Reading} {k k' : SimulatedMarket} {rs : List Reading}
    (hread : m.reading? now base = some (r, k)) (h : m.readings? now [base] = some (rs, k')) :
    rs = [r] := by
  obtain ⟨first, others, l, hfirst, hothers, rfl⟩ := readings?_cons_eq_some h
  cases hothers
  cases hread.symm.trans hfirst
  rfl

def euro : BaseRate := ⟨⟨⟨"EUR"⟩, ⟨"USD"⟩⟩, Decimal.one, none⟩

def euroSettings : MarketSettings :=
  { MarketSettings.standard with baseRates := [euro], seed := some 1 }

/-- The walk of the euro after its offset is set to two percent, at time zero. -/
def nudgedWalk : Walk := (Walk.start ⟨0, by decide⟩).override Decimal.twoPercent ⟨0, by decide⟩

def nudged : SimulatedMarket := withWalk ⟨euroSettings, 1, ∅⟩ euro.pair nudgedWalk

private theorem walk_nudged (now : Instant) : nudged.walk euro.pair now = nudgedWalk := by
  rw [nudged, walk_withWalk, if_pos rfl]

private theorem getElem?_nudged : nudged.walks[euro.pair]? = some nudgedWalk :=
  getElem?_withWalk_self _ _ _

private theorem reached_nudged : Reached euroSettings nudged := by
  have hvalid : euroSettings.validate = .ok () := by decide +kernel
  have hmake := make_of_validate hvalid 0
  have hset := (Reached.make hmake).setDrift euro.pair Decimal.twoPercent (.ok ⟨0, by decide⟩)
  rw [runOn_setDrift_fresh rfl (by decide +kernel) (by decide +kernel)] at hset
  exact hset

def shownWalk : Walk := { nudgedWalk with pinned := false }

private theorem reading?_nudged {mid : Decimal}
    (hmid : (Decimal.one.add? Decimal.twoPercent).bind euro.mid.mul? = some mid) (now : Instant) :
    nudged.reading? now euro =
      some (⟨euro, some nudgedWalk, shownWalk, mid⟩, nudged.withWalk euro.pair shownWalk) := by
  refine reading?_eq_some.mpr ⟨?_, rfl, getElem?_nudged.symm, hmid, rfl⟩
  rw [walk_nudged]
  exact Walk.after?_of_not_due rfl

private theorem route?_euro : euroSettings.route? euro.pair = some (.single (.direct euro)) := by
  decide +kernel

/-- A second after an offset was set, a rate and its inverse are of one mid. -/
theorem prices_agree_iff_soon :
    let now : Instant := ⟨1000000000, by decide⟩
    ∃ fetches m', Duration.zero < nudged.settings.drift.interval ∧
      Fetches now nudged fetches m' ∧
      fetches.map (·.pair) = [euro.pair, euro.pair.inverse] ∧
      (readingsOf euro.pair (allReadings fetches)).length = 2 ∧
      Agree (readingsOf euro.pair (allReadings fetches)) := by
  intro now
  have hinterval : Duration.zero < nudged.settings.drift.interval := by decide +kernel
  let mid : Decimal := ⟨false, 102, 2, by decide, by decide⟩
  let inverse : Decimal :=
    ⟨false, 9803921568627450980392156863, 28, by decide, by decide⟩
  let k := nudged.withWalk euro.pair shownWalk
  have hmid : (Decimal.one.add? Decimal.twoPercent).bind euro.mid.mul? = some mid := by decide +kernel
  have hfirst := reading?_nudged hmid now
  have hsecond : k.reading? now euro =
      some (⟨euro, some shownWalk, shownWalk, mid⟩, k.withWalk euro.pair shownWalk) := by
    have hsettled : shownWalk.IsSettled k.settings.drift now := ⟨rfl, by decide +kernel⟩
    refine reading?_eq_some.mpr ⟨?_, rfl, (getElem?_withWalk_self _ _ _).symm, hmid, rfl⟩
    rw [walk_withWalk, if_pos rfl]
    exact hsettled.after?_eq
  have hdirect : nudged.settings.route? euro.pair = some (.single (.direct euro)) := route?_euro
  have hreversed : k.settings.route? euro.pair.inverse = some (.single (.inverse euro)) := by
    decide +kernel
  obtain ⟨rate, hmake, -⟩ := Rate.exists_make euro.pair mid
    (nudged.settings.spreadOf (.single (.direct euro))) nudged.settings.validity
    nudged.settings.name now (by decide +kernel)
  obtain ⟨rate', hmake', -⟩ := Rate.exists_make euro.pair.inverse inverse
    (k.settings.spreadOf (.single (.inverse euro))) k.settings.validity k.settings.name now
    (by decide +kernel)
  have hprice := runOn_price_single hdirect hfirst rfl hmake
  have hprice' := runOn_price_single hreversed hsecond (by decide +kernel) hmake'
  obtain ⟨rs, hcomes⟩ := comesOf_of_runOn_price hprice
  obtain ⟨rs', hcomes'⟩ := comesOf_of_runOn_price hprice'
  have hrs : rs = [⟨euro, some nudgedWalk, shownWalk, mid⟩] := by
    have hreadings := hcomes.readings
    rw [basesOf, hdirect] at hreadings
    exact readings_eq_of_single hfirst hreadings
  have hrs' : rs' = [⟨euro, some shownWalk, shownWalk, mid⟩] := by
    have hreadings := hcomes'.readings
    rw [basesOf, hreversed] at hreadings
    exact readings_eq_of_single hsecond hreadings
  subst hrs hrs'
  have hfetches : Fetches now nudged
      [⟨euro.pair, .ok rate, _⟩, ⟨euro.pair.inverse, .ok rate', _⟩] _ :=
    .cons hprice hcomes (.cons hprice' hcomes' (.nil _))
  have hoverdue : ¬ (nudged.walk euro.pair now).IsOverdue nudged.settings.drift now := by
    rw [walk_nudged]
    rintro ⟨-, -, hle⟩
    exact absurd hle (by decide +kernel)
  exact ⟨_, _, hinterval, hfetches, rfl, rfl,
    ((prices_agree_iff hinterval hfetches).1 euro.pair).mpr (.inl hoverdue)⟩

set_option maxRecDepth 100000 in
private theorem unit_nudged :
    nudged.unit euro.pair 0 = ⟨true, 1453117223124905, 16, by decide, by decide⟩ := by
  change Random.unit (1 ^^^ Random.textHash euro.pair.text) 0 = _
  rw [Random.unit, Random.draw, Random.streamWord_eq, Random.streamWord_eq]
  decide +kernel

/-- Ten seconds after an offset was set, a rate that is asked for twice has two mids. -/
theorem not_same_mid_overdue :
    let now : Instant := ⟨10000000000, by decide⟩
    ∃ rate rate' k m', Reached euroSettings nudged ∧
      Duration.zero < euroSettings.drift.interval ∧
      (price euro.pair (.ok now)).runOn nudged = (.ok (.ok rate), k) ∧
      (price euro.pair (.ok now)).runOn k = (.ok (.ok rate'), m') ∧
      rate.mid.sameValue rate'.mid = false := by
  intro now
  let mid : Decimal := ⟨false, 102, 2, by decide, by decide⟩
  let offset : Decimal := ⟨false, 199273441, 10, by decide, by decide⟩
  let mid' : Decimal := ⟨false, 10199273441, 10, by decide, by decide⟩
  let k := nudged.withWalk euro.pair shownWalk
  have hoverdue : nudgedWalk.IsOverdue nudged.settings.drift now :=
    ⟨rfl, rfl, by decide +kernel⟩
  have hdue : shownWalk.isDue k.settings.drift now = true :=
    (hoverdue.after?_eq (nudged.unit euro.pair)).2
  have hstep : shownWalk.stepped? k.settings.drift (k.unit euro.pair shownWalk.draws) =
      some offset := by
    change shownWalk.stepped? _ (nudged.unit euro.pair 0) = _
    rw [unit_nudged]
    decide +kernel
  have hdrifted : (Decimal.one.add? Decimal.twoPercent).bind euro.mid.mul? = some mid := by
    decide +kernel
  have hfirst := reading?_nudged hdrifted now
  let stepped : Walk := { shownWalk with offset, lastUpdate := now, draws := 1 }
  have hsecond : k.reading? now euro =
      some (⟨euro, some shownWalk, stepped, mid'⟩, k.withWalk euro.pair stepped) := by
    refine reading?_eq_some.mpr
      ⟨?_, rfl, (getElem?_withWalk_self _ _ _).symm, by decide +kernel, rfl⟩
    rw [walk_withWalk, if_pos rfl, Walk.after?_of_due hdue, hstep]
    rfl
  obtain ⟨rate, hmake, hmid⟩ := Rate.exists_make euro.pair mid
    (nudged.settings.spreadOf (.single (.direct euro))) nudged.settings.validity
    nudged.settings.name now (by decide +kernel)
  obtain ⟨rate', hmake', hmid'⟩ := Rate.exists_make euro.pair mid'
    (nudged.settings.spreadOf (.single (.direct euro))) nudged.settings.validity
    nudged.settings.name now (by decide +kernel)
  refine ⟨rate, rate', k, _, reached_nudged, by decide +kernel,
    runOn_price_single route?_euro hfirst rfl hmake,
    runOn_price_single route?_euro hsecond rfl hmake', ?_⟩
  rw [hmid, hmid']
  decide +kernel

end SimulatedMarket

end Bureau
