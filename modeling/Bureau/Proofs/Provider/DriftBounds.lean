import Bureau.Proofs.Provider.Readings
import Bureau.Proofs.Random.Unit

/-!
Walks in their bounds. A ledger has everything that is done to the walks of a market, latest first:
readings, offsets set by hand and resets. Whatever the random parts of the steps are, no offset leaves
the bound of the settings or the last offset set by hand, steps are small and never lead further out
beyond the bound, and an interval lies between a step and whatever was done to its walk before.
-/

set_option autoImplicit false

namespace Bureau

open Attempt

/-- Something done to the walks of a market. -/
inductive Act where
  | read (r : Reading) (now : Instant)
  | override (pair : CurrencyPair) (offset : Decimal) (now : Instant)
  | reset (now : Instant)

namespace Reading

/-- The offset before a reading; a walk that has not started stands at zero. -/
def offsetBefore (r : Reading) : Decimal := r.before.elim Decimal.zero (·.offset)

/-- A reading takes a step if it draws a random number. -/
def IsStep (r : Reading) : Prop := r.before.elim 0 (·.draws) < r.after.draws

end Reading

namespace Act

def time : Act → Instant
  | .read _ now => now
  | .override _ _ now => now
  | .reset now => now

/-- Whether a walk starts, steps or is set by hand. -/
def Marks (pair : CurrencyPair) : Act → Prop
  | .read r _ => r.base.pair = pair ∧ (r.before = none ∨ r.IsStep)
  | .override other _ _ => other = pair
  | .reset _ => False

end Act

section Ledgers

variable (drift : Drift) (pair : CurrencyPair)

def override? : List Act → Option Decimal
  | [] => none
  | .read _ _ :: earlier => override? earlier
  | .override other offset _ :: earlier => if other = pair then some offset else override? earlier
  | .reset _ :: _ => none

/-- The offset that has been set, by hand or by a reset, and has not been read since. -/
def unread? : List Act → Option Decimal
  | [] => some Decimal.zero
  | .read r _ :: earlier => if r.base.pair = pair then none else unread? earlier
  | .override other offset _ :: earlier => if other = pair then some offset else unread? earlier
  | .reset _ :: _ => some Decimal.zero

/-- The bound on an offset: that of the settings, or the last offset set by hand. -/
def offsetBound (ledger : List Act) : ℚ :=
  Max.max drift.maxOffset.value ((override? pair ledger).elim 0 fun offset => |offset.value|)

end Ledgers

/-- What a reading owes to what was done before it. -/
structure Reading.Obeys (drift : Drift) (earlier : List Act) (r : Reading) (now : Instant) : Prop where
  abs_le : |r.offset.value| ≤ offsetBound drift r.base.pair earlier
  enabled : r.IsStep → drift.enabled = true
  near : r.IsStep → |r.offset.value - r.offsetBefore.value| ≤ drift.maxStep.value + 1 / 10 ^ 10
  inward : r.IsStep → drift.maxOffset.value < |r.offsetBefore.value| →
    |r.offset.value| ≤ |r.offsetBefore.value|
  apart : r.IsStep → ∀ act ∈ earlier, act.Marks r.base.pair → drift.interval ≤ now.since act.time
  still : ¬ r.IsStep → r.offset = r.offsetBefore
  unread : ∀ offset, unread? r.base.pair earlier = some offset → r.offset = offset

def Lawful (drift : Drift) : List Act → Prop
  | [] => True
  | .read r now :: earlier => r.Obeys drift earlier now ∧ Lawful drift earlier
  | .override _ _ _ :: earlier => Lawful drift earlier
  | .reset _ :: earlier => Lawful drift earlier

/-- What may be done to walks at times that never go back, with any random parts between minus one and
one: the ledger, and the walks that it leaves. -/
inductive Trail (drift : Drift) : List Act → Std.HashMap CurrencyPair Walk → Prop where
  | start : Trail drift [] ∅
  | read {ledger : List Act} {walks : Std.HashMap CurrencyPair Walk} {r : Reading} {now : Instant}
      {unit : Nat → Decimal} (h : Trail drift ledger walks)
      (hnow : ∀ act ∈ ledger, act.time ≤ now) (hunit : ∀ i, |(unit i).value| ≤ 1)
      (hbefore : r.before = walks[r.base.pair]?)
      (hafter : (r.before.getD (Walk.start now)).after? drift unit now = some r.after) :
      Trail drift (.read r now :: ledger) (walks.insert r.base.pair r.after)
  | override {ledger : List Act} {walks : Std.HashMap CurrencyPair Walk} {pair : CurrencyPair}
      {offset : Decimal} {now : Instant} (h : Trail drift ledger walks)
      (hnow : ∀ act ∈ ledger, act.time ≤ now) (hoffset : |offset.value| < 1) :
      Trail drift (.override pair offset now :: ledger)
        (walks.insert pair ((walks[pair]?.getD (Walk.start now)).override offset now))
  | reset {ledger : List Act} {walks : Std.HashMap CurrencyPair Walk} {now : Instant}
      (h : Trail drift ledger walks) (hnow : ∀ act ∈ ledger, act.time ≤ now) :
      Trail drift (.reset now :: ledger) ∅

/-- What a ledger says about the walks that it leaves. -/
structure Accounts (drift : Drift) (ledger : List Act) (walks : Std.HashMap CurrencyPair Walk) :
    Prop where
  /-- No offset is out of bounds. -/
  abs_le : ∀ (pair : CurrencyPair) (w : Walk), walks[pair]? = some w →
    |w.offset.value| ≤ offsetBound drift pair ledger
  bound_lt : ∀ pair, offsetBound drift pair ledger < 1
  /-- Nothing has been done to a walk since its last update. -/
  marks_le : ∀ (pair : CurrencyPair) (w : Walk), walks[pair]? = some w →
    ∀ act ∈ ledger, act.Marks pair → act.time ≤ w.lastUpdate
  /-- An offset that has not been read is pinned, or its walk has not started. -/
  unread : ∀ pair offset, unread? pair ledger = some offset → ∀ now,
    (walks[pair]?.getD (Walk.start now)).pinned = true ∧
      (walks[pair]?.getD (Walk.start now)).offset = offset

variable {drift : Drift} {ledger : List Act} {walks : Std.HashMap CurrencyPair Walk}
  {r : Reading} {pair : CurrencyPair} {offset : Decimal} {now : Instant} {unit : Nat → Decimal}

/-! ### What a reading finds -/

namespace Reading

private theorem offset_found (r : Reading) (now : Instant) :
    (r.before.getD (Walk.start now)).offset = r.offsetBefore := by
  unfold offsetBefore
  cases r.before <;> rfl

private theorem isStep_iff (r : Reading) (now : Instant) :
    r.IsStep ↔ (r.before.getD (Walk.start now)).draws < r.after.draws := by
  unfold IsStep
  cases r.before <;> rfl

end Reading

private theorem maxOffset_le_offsetBound (drift : Drift) (pair : CurrencyPair) (ledger : List Act) :
    drift.maxOffset.value ≤ offsetBound drift pair ledger := le_max_left _ _

namespace Accounts

theorem empty (hdrift : drift.IsValid) : Accounts drift [] ∅ where
  abs_le pair w hw := by simp at hw
  bound_lt pair := max_lt hdrift.offset_lt zero_lt_one
  marks_le pair w hw := by simp at hw
  unread pair offset hunread now := by
    cases hunread
    rw [Std.HashMap.getElem?_empty]
    exact ⟨rfl, rfl⟩

private theorem abs_found_le (h : Accounts drift ledger walks) (hdrift : drift.IsValid)
    (hbefore : r.before = walks[r.base.pair]?) (now : Instant) :
    |(r.before.getD (Walk.start now)).offset.value| ≤ offsetBound drift r.base.pair ledger := by
  cases hfound : r.before with
  | none =>
      have hzero : |(Walk.start now).offset.value| = 0 := by simp [Walk.start]
      rw [Option.getD_none, hzero]
      exact hdrift.offset_nonneg.trans (maxOffset_le_offsetBound drift r.base.pair ledger)
  | some w => exact h.abs_le r.base.pair w (hbefore.symm.trans hfound)

private theorem marks_le_found (h : Accounts drift ledger walks) (hnow : ∀ act ∈ ledger, act.time ≤ now)
    (hbefore : r.before = walks[r.base.pair]?) :
    ∀ act ∈ ledger, act.Marks r.base.pair →
      act.time ≤ (r.before.getD (Walk.start now)).lastUpdate := by
  cases hfound : r.before with
  | none => exact fun act hact _ => hnow act hact
  | some w => exact h.marks_le r.base.pair w (hbefore.symm.trans hfound)

/-- A reading obeys the ledger before it. -/
theorem obeys (h : Accounts drift ledger walks) (hdrift : drift.IsValid)
    (hnow : ∀ act ∈ ledger, act.time ≤ now) (hunit : ∀ i, |(unit i).value| ≤ 1)
    (hbefore : r.before = walks[r.base.pair]?)
    (hafter : (r.before.getD (Walk.start now)).after? drift unit now = some r.after) :
    r.Obeys drift ledger now := by
  have hfound := h.abs_found_le hdrift hbefore now
  have hbound : Max.max drift.maxOffset.value |(r.before.getD (Walk.start now)).offset.value| ≤
      offsetBound drift r.base.pair ledger :=
    max_le (maxOffset_le_offsetBound drift r.base.pair ledger) hfound
  have hunread : ∀ offset, unread? r.base.pair ledger = some offset →
      (r.before.getD (Walk.start now)).pinned = true ∧ r.offsetBefore = offset := by
    intro offset hoffset
    rw [← r.offset_found now, hbefore]
    exact h.unread r.base.pair offset hoffset now
  have hstill := r.offset_found now
  have hstep := r.isStep_iff now
  obtain ⟨hdue, heq⟩ | ⟨hdue, offset, hstepped, heq⟩ := Walk.after?_eq_some hafter
  · have hsame : r.offset = r.offsetBefore := by rw [Reading.offset, heq, ← hstill]
    have hnot : ¬ r.IsStep := by
      rw [hstep, heq]
      exact lt_irrefl _
    exact {
      abs_le := by rw [hsame, ← hstill]; exact hfound
      enabled := fun hcontra => absurd hcontra hnot
      near := fun hcontra => absurd hcontra hnot
      inward := fun hcontra => absurd hcontra hnot
      apart := fun hcontra => absurd hcontra hnot
      still := fun _ => hsame
      unread := fun offset hoffset => hsame.trans (hunread offset hoffset).2 }
  · have hoffset : r.offset = offset := by rw [Reading.offset, heq]
    obtain ⟨hpinned, henabled, hinterval⟩ := Walk.isDue_iff.mp hdue
    have hsize := Walk.abs_le_of_stepped? hstepped
    have hlt := lt_of_le_of_lt hfound (h.bound_lt r.base.pair)
    exact {
      abs_le := by rw [hoffset]; exact hsize.trans hbound
      enabled := fun _ => henabled
      near := fun _ => by
        rw [hoffset, ← hstill]
        exact Walk.abs_sub_le_of_stepped? hdrift (hunit _) hlt hstepped
      inward := fun _ hout => by
        rw [hoffset]
        rw [← hstill] at hout ⊢
        rwa [max_eq_right hout.le] at hsize
      apart := fun _ act hact hmarks =>
        Instant.le_since_of_le hinterval (h.marks_le_found hnow hbefore act hact hmarks)
      still := fun hnot => absurd (hstep.mpr (by rw [heq]; exact Nat.lt_succ_self _)) hnot
      unread := fun offset hoffset => by
        cases hpinned.symm.trans (hunread offset hoffset).1 }

/-! ### What is done to walks -/

theorem read (h : Accounts drift ledger walks) (hdrift : drift.IsValid)
    (hnow : ∀ act ∈ ledger, act.time ≤ now) (hunit : ∀ i, |(unit i).value| ≤ 1)
    (hbefore : r.before = walks[r.base.pair]?)
    (hafter : (r.before.getD (Walk.start now)).after? drift unit now = some r.after) :
    Accounts drift (.read r now :: ledger) (walks.insert r.base.pair r.after) where
  abs_le other w hw := by
    rw [Std.HashMap.getElem?_insert] at hw
    split_ifs at hw with hsame
    · cases hw
      rw [← beq_iff_eq.mp hsame]
      exact (h.obeys hdrift hnow hunit hbefore hafter).abs_le
    · exact h.abs_le other w hw
  bound_lt := h.bound_lt
  marks_le other w hw act hact hmarks := by
    rw [Std.HashMap.getElem?_insert] at hw
    split_ifs at hw with hsame
    · cases hw
      rw [← beq_iff_eq.mp hsame] at hmarks
      obtain ⟨-, heq⟩ | ⟨-, offset, -, heq⟩ := Walk.after?_eq_some hafter
      · rw [heq]
        rcases List.mem_cons.mp hact with rfl | hact
        · -- a reading that takes no step marks the walk only where it starts it
          obtain ⟨-, hnew | hstep⟩ := hmarks
          · rw [hnew]
            exact le_refl now.nanos
          · rw [r.isStep_iff now, heq] at hstep
            exact absurd hstep (lt_irrefl _)
        · exact h.marks_le_found hnow hbefore act hact hmarks
      · rw [heq]
        rcases List.mem_cons.mp hact with rfl | hact
        · exact le_refl now.nanos
        · exact hnow act hact
    · rcases List.mem_cons.mp hact with rfl | hact
      · exact absurd (beq_iff_eq.mpr hmarks.1) hsame
      · exact h.marks_le other w hw act hact hmarks
  unread other offset hunread now := by
    rw [unread?] at hunread
    split_ifs at hunread with hsame
    rw [Std.HashMap.getElem?_insert, if_neg (by rwa [beq_iff_eq])]
    exact h.unread other offset hunread now

theorem override (h : Accounts drift ledger walks) (hdrift : drift.IsValid)
    (hnow : ∀ act ∈ ledger, act.time ≤ now) (hoffset : |offset.value| < 1) :
    Accounts drift (.override pair offset now :: ledger)
      (walks.insert pair ((walks[pair]?.getD (Walk.start now)).override offset now)) where
  abs_le other w hw := by
    rw [Std.HashMap.getElem?_insert] at hw
    rw [offsetBound, override?]
    split_ifs at hw with hsame
    · cases hw
      rw [if_pos (beq_iff_eq.mp hsame)]
      exact le_max_right _ _
    · rw [if_neg (by rwa [beq_iff_eq] at hsame)]
      exact h.abs_le other w hw
  bound_lt other := by
    rw [offsetBound, override?]
    split_ifs
    · exact max_lt hdrift.offset_lt hoffset
    · exact h.bound_lt other
  marks_le other w hw act hact hmarks := by
    rw [Std.HashMap.getElem?_insert] at hw
    split_ifs at hw with hsame
    · cases hw
      rcases List.mem_cons.mp hact with rfl | hact
      · exact le_refl now.nanos
      · exact hnow act hact
    · rcases List.mem_cons.mp hact with rfl | hact
      · exact absurd (beq_iff_eq.mpr hmarks) hsame
      · exact h.marks_le other w hw act hact hmarks
  unread other found hunread now := by
    rw [unread?] at hunread
    rw [Std.HashMap.getElem?_insert]
    split_ifs at hunread with hsame
    · cases hunread
      rw [if_pos (beq_iff_eq.mpr hsame)]
      exact ⟨rfl, rfl⟩
    · rw [if_neg (by rwa [beq_iff_eq])]
      exact h.unread other found hunread now

theorem reset (hdrift : drift.IsValid) : Accounts drift (.reset now :: ledger) ∅ where
  abs_le pair w hw := by simp at hw
  bound_lt pair := max_lt hdrift.offset_lt zero_lt_one
  marks_le pair w hw := by simp at hw
  unread pair offset hunread now := by
    cases hunread
    rw [Std.HashMap.getElem?_empty]
    exact ⟨rfl, rfl⟩

end Accounts

namespace Trail

private theorem accounts (h : Trail drift ledger walks) (hdrift : drift.IsValid) :
    Accounts drift ledger walks := by
  induction h with
  | start => exact .empty hdrift
  | read h hnow hunit hbefore hafter ih => exact ih.read hdrift hnow hunit hbefore hafter
  | override h hnow hoffset ih => exact ih.override hdrift hnow hoffset
  | reset h hnow ih => exact .reset hdrift

private theorem lawful (h : Trail drift ledger walks) (hdrift : drift.IsValid) :
    Lawful drift ledger := by
  induction h with
  | start => trivial
  | read h hnow hunit hbefore hafter ih =>
      exact ⟨(h.accounts hdrift).obeys hdrift hnow hunit hbefore hafter, ih⟩
  | override h hnow hoffset ih => exact ih
  | reset h hnow ih => exact ih

end Trail

/-! ### Requests to a market -/

namespace SimulatedMarket

/-- A history at times that never go back in which nothing crashes: the ledger of what it does to the
walks of a market, and the market after it. -/
inductive Serves (settings : MarketSettings) :
    List MarketEvent → List Act → SimulatedMarket → Prop where
  | make {entropy : UInt64} {m : SimulatedMarket} (h : make settings entropy = .ok m) :
      Serves settings [] [] m
  | price {history : List MarketEvent} {ledger : List Act} {m m' : SimulatedMarket}
      {pair : CurrencyPair} {now : Instant} {reply : Except FxError Rate} {rs : List Reading}
      (h : Serves settings history ledger m) (hnow : ∀ act ∈ ledger, act.time ≤ now)
      (hprice : (price pair (.ok now)).runOn m = (.ok reply, m'))
      (hcomes : m.ComesOf pair now reply rs m') :
      Serves settings (history ++ [⟨.rate pair, now⟩]) (rs.reverse.map (.read · now) ++ ledger) m'
  | setDrift {history : List MarketEvent} {ledger : List Act} {m m' : SimulatedMarket}
      {pair : CurrencyPair} {offset : Decimal} {now : Instant}
      (h : Serves settings history ledger m) (hnow : ∀ act ∈ ledger, act.time ≤ now)
      (hset : (setDrift pair offset (.ok now)).runOn m = (.ok (.ok ()), m')) :
      Serves settings (history ++ [⟨.setDrift pair offset, now⟩])
        (.override pair offset now :: ledger) m'
  | refused {history : List MarketEvent} {ledger : List Act} {m m' : SimulatedMarket}
      {pair : CurrencyPair} {offset : Decimal} {now : Instant} {e : FxError}
      (h : Serves settings history ledger m)
      (hset : (setDrift pair offset (.ok now)).runOn m = (.ok (.error e), m')) :
      Serves settings (history ++ [⟨.setDrift pair offset, now⟩]) ledger m'
  | resetDrift {history : List MarketEvent} {ledger : List Act} {m : SimulatedMarket} {now : Instant}
      (h : Serves settings history ledger m) (hnow : ∀ act ∈ ledger, act.time ≤ now) :
      Serves settings (history ++ [⟨.resetDrift, now⟩]) (.reset now :: ledger) m.resetDrift

/-- No price crashes in the course of a history. -/
def NeverCrashes : List MarketEvent → SimulatedMarket → Prop
  | [], _ => True
  | e :: rest, m =>
      (∀ asked, e.request = .rate asked →
        ∃ reply, ((price asked (.ok e.now)).runOn m).1 = .ok reply) ∧ NeverCrashes rest (m.serve e)

variable {settings : MarketSettings} {history : List MarketEvent} {m m' : SimulatedMarket}

private theorem Serves.time_mem (h : Serves settings history ledger m) :
    ∀ act ∈ ledger, act.time ∈ history.map (·.now) := by
  induction h with
  | make h => exact List.forall_mem_nil _
  | @price history ledger m m' pair now reply rs h hnow hprice hcomes ih =>
      intro act hact
      rw [List.map_append, List.mem_append]
      rcases List.mem_append.mp hact with hread | hact
      · obtain ⟨r, -, rfl⟩ := List.mem_map.mp hread
        exact .inr (List.mem_singleton_self now)
      · exact .inl (ih act hact)
  | refused h hset ih =>
      intro act hact
      rw [List.map_append]
      exact List.mem_append_left _ (ih act hact)
  | setDrift h hnow _ ih | resetDrift h hnow ih =>
      intro act hact
      rw [List.map_append, List.mem_append]
      rcases List.mem_cons.mp hact with rfl | hact
      · exact .inr (List.mem_singleton_self _)
      · exact .inl (ih act hact)

private theorem Serves.exists_serve (h : Serves settings history ledger m) {e : MarketEvent}
    (hnow : ∀ act ∈ ledger, act.time ≤ e.now) (hanswers : ∀ asked, e.request = .rate asked →
      ∃ reply, ((SimulatedMarket.price asked (.ok e.now)).runOn m).1 = .ok reply) :
    ∃ ledger', Serves settings (history ++ [e]) ledger' (m.serve e) := by
  obtain ⟨request, now⟩ := e
  cases request with
  | rate asked =>
      obtain ⟨reply, hreply⟩ := hanswers asked rfl
      have hprice : (SimulatedMarket.price asked (.ok now)).runOn m =
        (.ok reply, m.serve ⟨.rate asked, now⟩) := Prod.ext hreply rfl
      obtain ⟨rs, hcomes⟩ := comesOf_of_runOn_price hprice
      exact ⟨_, h.price hnow hprice hcomes⟩
  | setDrift pair offset =>
      rcases hset : (SimulatedMarket.setDrift pair offset (.ok now)).runOn m with ⟨outcome, k⟩
      have hserve : m.serve ⟨.setDrift pair offset, now⟩ = k := congrArg Prod.snd hset
      rw [hserve]
      rcases outcome with c | e | done
      · rw [runOn_setDrift] at hset
        split_ifs at hset <;> cases hset
      · exact ⟨_, h.refused hset⟩
      · exact ⟨_, h.setDrift hnow hset⟩
  | resetDrift => exact ⟨_, h.resetDrift hnow⟩

/-- Whatever is asked of a market, there is a ledger of it. -/
theorem Serves.exists_run {past : List MarketEvent} (h : Serves settings past ledger m)
    (horder : Instant.Ascending ((past ++ history).map (·.now))) (hanswers : NeverCrashes history m) :
    ∃ ledger', Serves settings (past ++ history) ledger' (m.run history) := by
  induction history generalizing past ledger m with
  | nil =>
      rw [List.append_nil]
      exact ⟨ledger, h⟩
  | cons e rest ih =>
      have hnow : ∀ act ∈ ledger, act.time ≤ e.now := by
        intro act hact
        rw [List.map_append] at horder
        exact (List.pairwise_append.mp horder).2.2 act.time (h.time_mem act hact) e.now
          List.mem_cons_self
      obtain ⟨ledger', hserves⟩ := h.exists_serve hnow hanswers.1
      rw [List.append_cons] at horder ⊢
      exact ih hserves horder hanswers.2

private theorem trail_of_readings? {bases : List BaseRate} {rs : List Reading}
    (h : Trail m.settings.drift ledger m.walks) (hnow : ∀ act ∈ ledger, act.time ≤ now)
    (hreadings : m.readings? now bases = some (rs, m')) :
    Trail m.settings.drift (rs.reverse.map (.read · now) ++ ledger) m'.walks ∧
      m'.settings = m.settings := by
  induction bases generalizing m rs ledger with
  | nil =>
      cases hreadings
      exact ⟨h, rfl⟩
  | cons base rest ih =>
      obtain ⟨first, others, k, hfirst, hothers, rfl⟩ := readings?_cons_eq_some hreadings
      obtain ⟨hafter, rfl, hbefore, -, rfl⟩ := reading?_eq_some.mp hfirst
      rw [walk_eq, ← hbefore] at hafter
      have hread := h.read hnow (fun i => Random.abs_unit_le _ i) hbefore hafter
      have hlast : ∀ act ∈ Act.read first now :: ledger, act.time ≤ now := by
        intro act hact
        rcases List.mem_cons.mp hact with rfl | hact
        · exact le_refl now.nanos
        · exact hnow act hact
      have hrest := ih (m := m.withWalk first.base.pair first.after) hread hlast hothers
      rw [List.reverse_cons, List.map_append, List.append_assoc]
      exact hrest

private theorem Serves.trail (h : Serves settings history ledger m) :
    Trail settings.drift ledger m.walks ∧ m.settings = settings := by
  induction h with
  | make h =>
      obtain ⟨-, rfl⟩ := make_eq_ok h
      exact ⟨.start, rfl⟩
  | price h hnow hprice hcomes ih =>
      obtain ⟨htrail, rfl⟩ := ih
      exact trail_of_readings? htrail hnow hcomes.readings
  | @setDrift history ledger m m' pair offset now h hnow hset ih =>
      obtain ⟨htrail, rfl⟩ := ih
      rw [runOn_setDrift] at hset
      split_ifs at hset with hbase hgreat
      · cases hset
      · cases hset
      · cases hset
        rw [Decimal.le_iff, Decimal.value_one, Decimal.value_abs, not_le] at hgreat
        rw [walk_eq]
        exact ⟨htrail.override hnow hgreat, rfl⟩
  | @refused history ledger m m' pair offset now e h hset ih =>
      rw [runOn_setDrift] at hset
      split_ifs at hset
      · cases hset
        exact ih
      · cases hset
        exact ih
      · cases hset
  | resetDrift h hnow ih =>
      obtain ⟨htrail, rfl⟩ := ih
      exact ⟨htrail.reset hnow, rfl⟩

end SimulatedMarket

/-- Walks keep to their bounds. Whatever is read, set and reset, and whatever the random parts of steps
are, offsets stay below one and within the bound of the settings or the last offset set by hand, and
every reading obeys. Every history of requests at times that never go back of which none crashes has a
ledger, and it is of this kind. -/
theorem drift_stays_in_bounds {settings : MarketSettings} (hvalid : settings.validate = .ok ()) :
    (∀ ledger walks, Trail settings.drift ledger walks →
      Lawful settings.drift ledger ∧ ∀ pair, offsetBound settings.drift pair ledger < 1 ∧
        ∀ w, walks[pair]? = some w → |w.offset.value| ≤ offsetBound settings.drift pair ledger) ∧
    (∀ history ledger m, SimulatedMarket.Serves settings history ledger m →
      Trail settings.drift ledger m.walks) ∧
    ∀ entropy m history, SimulatedMarket.make settings entropy = .ok m →
      Instant.Ascending (history.map (·.now)) → SimulatedMarket.NeverCrashes history m →
      ∃ ledger, SimulatedMarket.Serves settings history ledger (m.run history) := by
  have hdrift := (MarketSettings.isValid_of_validate hvalid).drift
  refine ⟨fun ledger walks htrail => ?_, fun history ledger m hserves => hserves.trail.1,
    fun entropy m history hm => (SimulatedMarket.Serves.make hm).exists_run⟩
  have haccounts := htrail.accounts hdrift
  exact ⟨htrail.lawful hdrift, fun pair =>
    ⟨haccounts.bound_lt pair, fun w hw => haccounts.abs_le pair w hw⟩⟩

/-- An offset of one half is far beyond the bound of the standard market. A rate that is asked for right
after it is set shows it, and a step outward leaves it there. -/
theorem drift_stays_in_bounds_beyond :
    let base : BaseRate := ⟨⟨⟨"USD"⟩, ⟨"SGD"⟩⟩, Decimal.one, none⟩
    let settings : MarketSettings :=
      { MarketSettings.standard with baseRates := [base], seed := some 1 }
    let half : Decimal := ⟨false, 5, 1, by decide, by decide⟩
    let set : Instant := ⟨0, by decide⟩
    let now : Instant := ⟨10000000000, by decide⟩
    let history : List MarketEvent := [⟨.setDrift base.pair half, set⟩, ⟨.rate base.pair, set⟩]
    (∃ m ledger, SimulatedMarket.make settings 0 = .ok m ∧
      SimulatedMarket.Serves settings history ledger (m.run history) ∧
      Lawful settings.drift ledger ∧ (m.run history).offset? base.pair = some half ∧
      |half.value| ≤ offsetBound settings.drift base.pair ledger) ∧
    ∃ first second walks,
      let earlier : List Act := [.read first set, .override second.base.pair half set]
      Trail settings.drift (.read second now :: earlier) walks ∧ second.IsStep ∧
        settings.drift.maxOffset < second.offset ∧ second.offset = half ∧
        second.Obeys settings.drift earlier now := by
  intro base settings half set now history
  have hvalid : settings.validate = .ok () := by decide +kernel
  obtain ⟨htrails, hserves, hruns⟩ := drift_stays_in_bounds hvalid
  let started : Walk := (Walk.start set).override half set
  let read : Walk := { started with pinned := false }
  constructor
  · let m : SimulatedMarket := ⟨settings, 1, ∅⟩
    let pinned := m.withWalk base.pair started
    let mid : Decimal := ⟨false, 15, 1, by decide, by decide⟩
    have hmake : SimulatedMarket.make settings 0 = .ok m := SimulatedMarket.make_of_validate hvalid 0
    have hset : m.serve ⟨.setDrift base.pair half, set⟩ = pinned :=
      congrArg Prod.snd
        (SimulatedMarket.runOn_setDrift_fresh rfl (by decide +kernel) (by decide +kernel) set)
    have hread : pinned.reading? set base =
        some (⟨base, some started, read, mid⟩, pinned.withWalk base.pair read) := by
      refine SimulatedMarket.reading?_eq_some.mpr
        ⟨?_, rfl, (SimulatedMarket.getElem?_withWalk_self _ _ _).symm, by decide +kernel, rfl⟩
      rw [SimulatedMarket.walk_withWalk, if_pos rfl]
      exact Walk.after?_of_not_due rfl
    have hroute : pinned.settings.route? base.pair = some (.single (.direct base)) := by
      decide +kernel
    obtain ⟨rate, hrate, -⟩ := Rate.exists_make base.pair mid
      (settings.spreadOf (.single (.direct base))) settings.validity settings.name set
      (by decide +kernel)
    have hprice := SimulatedMarket.runOn_price_single hroute hread rfl hrate
    have hrun : m.run history = pinned.withWalk base.pair read := by
      have hserve : m.run history = pinned.serve ⟨.rate base.pair, set⟩ :=
        congrArg (SimulatedMarket.serve · ⟨.rate base.pair, set⟩) hset
      exact hserve.trans (congrArg Prod.snd hprice)
    have hcrash : SimulatedMarket.NeverCrashes history m := by
      refine ⟨fun _ => nofun, fun asked hasked => ?_, trivial⟩
      cases hasked
      rw [hset]
      exact ⟨_, congrArg Prod.fst hprice⟩
    have horder : Instant.Ascending (history.map (·.now)) := by
      unfold Instant.Ascending
      decide
    obtain ⟨ledger, hledger⟩ := hruns 0 m history hmake horder hcrash
    have hwalk : (m.run history).walks[base.pair]? = some read := by
      rw [hrun]
      exact SimulatedMarket.getElem?_withWalk_self _ _ _
    obtain ⟨hlawful, hbound⟩ := htrails ledger _ (hserves history ledger _ hledger)
    exact ⟨m, ledger, hmake, hledger, hlawful, congrArg (Option.map Walk.offset) hwalk,
      (hbound base.pair).2 read hwalk⟩
  · let stepped : Walk := ⟨half, now, false, 1⟩
    let first : Reading := ⟨base, some started, read, Decimal.one⟩
    let second : Reading := ⟨base, some read, stepped, Decimal.one⟩
    have hdue : read.isDue settings.drift now = true := by decide +kernel
    have hstep : read.stepped? settings.drift Decimal.one = some half := by decide +kernel
    have hhalf : |half.value| < 1 := by norm_num [Decimal.value, Decimal.coefficient, half]
    have hone : |Decimal.one.value| ≤ 1 := by simp
    let walks : Std.HashMap CurrencyPair Walk := .insert ∅ base.pair started
    have hlater : set ≤ now := by decide +kernel
    have hset : Trail settings.drift [.override base.pair half set] walks := by
      have htrail : Trail settings.drift [.override base.pair half set] _ :=
        .override .start (fun act hact => absurd hact List.not_mem_nil) hhalf
      rwa [Std.HashMap.getElem?_empty] at htrail
    have hfirst : Trail settings.drift [.read first set, .override base.pair half set] _ :=
      hset.read (List.forall_mem_singleton.mpr (le_refl set.nanos)) (fun _ => hone)
        Std.HashMap.getElem?_insert_self.symm (Walk.after?_of_not_due rfl)
    have hafter : read.after? settings.drift (fun _ => Decimal.one) now = some stepped := by
      rw [Walk.after?_of_due hdue, hstep]
      rfl
    have hsecond : Trail settings.drift
        [.read second now, .read first set, .override base.pair half set] _ :=
      hfirst.read (List.forall_mem_cons.mpr ⟨hlater, List.forall_mem_singleton.mpr hlater⟩)
        (fun _ => hone) Std.HashMap.getElem?_insert_self.symm hafter
    exact ⟨first, second, _, hsecond, Nat.zero_lt_one, by decide +kernel, rfl,
      (htrails _ _ hsecond).1.1⟩

end Bureau
