import Bureau.Proofs.Host.Stopping

/-!
A reaper at work. While it runs its next purge is in line, or it stands on the agenda at most one
period ahead, and no entry expired by one period before it; so once a host has settled nothing in its
store has been past its time for an interval. A reaper takes out nothing but what is past its time, and
once it has seen the signal to stop it takes out nothing more.
-/

set_option autoImplicit false

namespace Bureau

def Job.isOfTask (task : Nat) : Job → Bool
  | .work id _ | .heed id => id == task
  | .feed _ | .read _ => false

namespace Crew

variable {c : Crew} {id j : Nat} {t : Task}

private theorem getElem?_finish_of_ne (h : id ≠ j) : (c.finish id).tasks[j]? = c.tasks[j]? :=
  List.getElem?_modify_ne _ _ h

private theorem getElem?_look_of_ne (h : id ≠ j) : (c.look id).tasks[j]? = c.tasks[j]? :=
  List.getElem?_modify_ne _ _ h

private theorem getElem?_look (ht : c.tasks[id]? = some t) :
    (c.look id).tasks[id]? = some { t with seen := c.signal.sent } := by
  rw [look, List.getElem?_modify_eq, ht]
  rfl

private theorem signal_send {duty : Duty} (hduty : c.duty? id = some duty) (value : Bool) :
    (c.send value).signal = ⟨value, c.signal.sent + 1⟩ := by
  rw [send, if_neg (List.ne_nil_of_mem (c.mem_running id hduty))]

private theorem tasks_send (c : Crew) (value : Bool) : (c.send value).tasks = c.tasks := by
  unfold send
  split <;> rfl

private theorem getElem?_finishAll {kind : Duty → Bool} (ht : c.tasks[id]? = some t)
    (hkind : kind t.duty = false) : (c.finishAll kind).tasks[id]? = some t := by
  rw [finishAll, List.getElem?_map, ht, Option.map_some, hkind]
  rfl

end Crew

namespace Host

variable {h k : Host} {task period seen due : Nat} {job : Job} {last : Option Bool}

/-! ### The task of a reaper -/

/-- A reaper that runs, with the number of signals that it knows of. -/
def IsReaper (h : Host) (task period seen : Nat) : Prop :=
  h.crew.tasks[task]? = some ⟨.reap period, seen, true⟩

namespace IsReaper

private theorem duty?_eq (hreaper : h.IsReaper task period seen) :
    h.crew.duty? task = some (.reap period) := by
  unfold IsReaper at hreaper
  rw [Crew.duty?, hreaper]
  rfl

private theorem isCalled_eq (hreaper : h.IsReaper task period seen) :
    h.crew.isCalled task = (seen != h.crew.signal.sent) := by
  unfold IsReaper at hreaper
  rw [Crew.isCalled, hreaper]
  rfl

theorem of_crew (hreaper : h.IsReaper task period seen) (hcrew : k.crew = h.crew) :
    k.IsReaper task period seen := by
  unfold IsReaper
  rw [hcrew]
  exact hreaper

private theorem finish_of_ne (hreaper : h.IsReaper task period seen) {id : Nat} (hne : id ≠ task) :
    (h.finish id).IsReaper task period seen :=
  (Crew.getElem?_finish_of_ne hne).trans hreaper

theorem readFeed (hreaper : h.IsReaper task period seen) (index : Nat) :
    (h.readFeed index).IsReaper task period seen := by
  cases hf : h.feeds[index]? with
  | none =>
    unfold Host.readFeed
    rw [hf]
    exact hreaper
  | some f =>
    obtain ⟨-, hcrew⟩ | ⟨-, -, hcrew⟩ := crew_readFeed hf
    · exact hreaper.of_crew hcrew
    · unfold IsReaper
      rw [hcrew]
      exact Crew.getElem?_finishAll hreaper rfl

private theorem work_of_ne (hreaper : h.IsReaper task period seen) {id : Nat} (hne : id ≠ task) :
    (h.work id due).IsReaper task period seen := by
  unfold work
  split
  · unfold reap
    split
    · exact hreaper
    · exact hreaper.finish_of_ne hne
  · unfold report
    split
    · exact hreaper
    · exact hreaper.finish_of_ne hne
  · exact hreaper.readFeed _
  · exact hreaper

private theorem heed_of_ne (hreaper : h.IsReaper task period seen) {id : Nat} (hne : id ≠ task) :
    (h.heed id).IsReaper task period seen := by
  have hlook : ({ h with crew := h.crew.look id } : Host).IsReaper task period seen :=
    (Crew.getElem?_look_of_ne hne).trans hreaper
  unfold heed
  split
  · exact hreaper
  · split
    · simp only
      split
      · split
        · exact hlook.finish_of_ne hne
        · exact hlook
      · exact hlook.finish_of_ne hne
      · exact hlook.of_crew (crew_stopReading _ _)
    · exact hreaper

private theorem perform_of_other (hreaper : h.IsReaper task period seen)
    (hjob : job.isOfTask task = false) :
    (h.perform job).IsReaper task period seen := by
  cases job with
  | work id due => exact hreaper.work_of_ne (beq_eq_false_iff_ne.mp hjob)
  | heed id => exact hreaper.heed_of_ne (beq_eq_false_iff_ne.mp hjob)
  | feed index => exact hreaper.of_crew (h.crew_runFeed index)
  | read index => exact hreaper.readFeed index

end IsReaper

/-! ### Between two purges -/

/-- The next purge of a reaper stands on the agenda, due at most one period ahead, and every entry
expires after the time that is one period before it. -/
structure PurgesAt (h : Host) (task period due : Nat) : Prop where
  alarm : ⟨Timer.tickFor due, .work task due⟩ ∈ h.agenda.alarms
  ahead : h.nanos < due
  near : due ≤ h.nanos + period
  outlasts : h.office.store.store.Outlasts (h.office.clock.origin + due - period)

def Comes (h : Host) (task period : Nat) : Prop :=
  (∃ due ≤ h.nanos, .work task due ∈ h.ready) ∨ ∃ due, h.PurgesAt task period due

/-- A task that knows of so many signals has seen the last one, and that was none to stop, or it comes
to look at it. -/
def Hears (h : Host) (task seen : Nat) (last : Option Bool) : Prop :=
  seen = h.crew.signal.sent ∧ last ≠ some true ∨
    seen < h.crew.signal.sent ∧ .heed task ∈ h.ready ∧ last = some h.crew.signal.value

/-- A reaper at work, after the last of some signals. -/
structure Tends (h : Host) (task period : Nat) (last : Option Bool) : Prop where
  comes : h.Comes task period
  hears : ∃ seen, h.IsReaper task period seen ∧ h.Hears task seen last

private theorem clock_nanos (h : Host) : h.office.clock.nanos = h.office.clock.origin + h.nanos := by
  rw [Clock.nanos, nanos, Timer.nanosAt, Nat.cast_mul, Int.mul_comm]
  rfl

namespace PurgesAt

private theorem of_turned (hpurge : h.PurgesAt task period due) (hturned : h.Turned k) :
    k.PurgesAt task period due := by
  have hnow := hturned.nanos_eq
  have hnear := hpurge.near
  refine ⟨hturned.alarms _ _ _ hpurge.alarm, hnow.trans_lt hpurge.ahead, ?_, ?_⟩
  · rw [hnow]
    exact hnear
  · rw [hturned.office.clock_eq]
    refine hturned.office.outlasts _ ?_ hpurge.outlasts
    rw [clock_nanos]
    omega

/-- At a later time the purge has fallen due, or it is still ahead. -/
theorem reach (hpurge : h.PurgesAt task period due) {tick : Nat} (hlater : h.ticks ≤ tick) :
    (h.reach tick).Comes task period := by
  by_cases hdue : Timer.tickFor due ≤ tick
  · have hin : .work task due ∈ h.agenda.due tick :=
      List.mem_map.mpr ⟨_, List.mem_filter.mpr ⟨hpurge.alarm, decide_eq_true hdue⟩, rfl⟩
    exact .inl ⟨due, Timer.tickFor_le_iff.mp hdue, List.mem_append_right _ hin⟩
  · have hnow : h.nanos ≤ (h.reach tick).nanos := Timer.nanosAt_le_nanosAt hlater
    refine .inr ⟨due, ?_, ?_, hpurge.near.trans (Nat.add_le_add_right hnow period), hpurge.outlasts⟩
    · refine List.mem_filter.mpr ⟨hpurge.alarm, ?_⟩
      simp only [hdue, decide_false, Bool.not_false]
    · exact Nat.not_le.mp fun hle => hdue (Timer.tickFor_le_iff.mpr hle)

/-- When the clock shows a time before the purge no entry has been past its time for a period. -/
theorem lt_expiry (hpurge : h.PurgesAt task period due) {key : String} {e : Entry}
    (he : h.office.store.store.entries[key]? = some e) :
    h.office.clock.nanos < e.expiresAt.nanos + period := by
  have hlasts := hpurge.outlasts key e he
  have hahead := hpurge.ahead
  rw [clock_nanos]
  omega

end PurgesAt

private theorem reap_of_read {now : Instant} (hread : h.office.clock.read = .ok now)
    (task period due : Nat) :
    h.reap task period due =
      (h.mapStore (·.purge now)).schedule task (reapingAfter period due h.nanos) := by
  rw [reap, hread]

private theorem reap_of_error {crash : Crash} (hread : h.office.clock.read = .error crash)
    (task period due : Nat) : h.reap task period due = h.finish task := by
  rw [reap, hread]

private theorem reapingAfter_bounds {now : Nat} (hdue : due ≤ now) (hperiod : 0 < period) :
    now < reapingAfter period due now ∧ reapingAfter period due now ≤ now + period := by
  unfold reapingAfter
  split
  · exact ⟨Nat.lt_add_of_pos_right hperiod, le_rfl⟩
  · exact ⟨Timer.lt_nextBeat hperiod due now, Timer.nextBeat_le hdue⟩

/-- A purge leaves only entries that last longer, and the next one comes within a period. -/
theorem purgesAt_reap {now : Instant} (hread : h.office.clock.read = .ok now) (hdue : due ≤ h.nanos)
    (hperiod : 0 < period) :
    (h.reap task period due).PurgesAt task period (reapingAfter period due h.nanos) := by
  obtain ⟨hahead, hnear⟩ := reapingAfter_bounds hdue hperiod
  rw [reap_of_read hread]
  refine ⟨List.mem_append_right _ (List.mem_singleton.mpr rfl), hahead, hnear, ?_⟩
  have hmoment : h.office.clock.origin + (reapingAfter period due h.nanos : Nat) - period ≤
      now.nanos := by
    rw [Clock.nanos_of_read hread, clock_nanos]
    omega
  exact (h.office.store.store.outlasts_purge now).mono hmoment

/-! ### The turns of a host with a reaper -/

private theorem mem_of_mem_ready {rest : List Job} {j : Job} (hready : h.ready = job :: rest)
    (hne : job ≠ j) (hin : j ∈ h.ready) : j ∈ rest :=
  (List.mem_cons.mp (hready ▸ hin)).resolve_left hne.symm

private theorem Comes.of_turned (hcomes : h.Comes task period) (hturned : h.Turned k) :
    k.Comes task period := by
  obtain ⟨due, hdue, hready⟩ | ⟨due, hpurge⟩ := hcomes
  · obtain ⟨more, hmore, -⟩ := hturned.line
    exact .inl ⟨due, hdue.trans_eq hturned.nanos_eq.symm, hmore ▸ List.mem_append_left more hready⟩
  · exact .inr ⟨due, hpurge.of_turned hturned⟩

theorem Comes.drop {rest : List Job} (hcomes : h.Comes task period) (hready : h.ready = job :: rest)
    (hne : ∀ due ≤ h.nanos, job ≠ .work task due) :
    ({ h with ready := rest } : Host).Comes task period := by
  obtain ⟨due, hdue, hin⟩ | ⟨due, halarm, hahead, hnear, hlasts⟩ := hcomes
  · exact .inl ⟨due, hdue, mem_of_mem_ready hready (hne due hdue) hin⟩
  · exact .inr ⟨due, halarm, hahead, hnear, hlasts⟩

private theorem Hears.of_turned (hhears : h.Hears task seen last) (hturned : h.Turned k) :
    k.Hears task seen last := by
  unfold Hears
  rw [hturned.signal_eq]
  obtain hknows | ⟨hlt, hheed, hlast⟩ := hhears
  · exact .inl hknows
  · obtain ⟨more, hmore, -⟩ := hturned.line
    exact .inr ⟨hlt, hmore ▸ List.mem_append_left more hheed, hlast⟩

theorem Hears.drop {rest : List Job} (hhears : h.Hears task seen last) (hready : h.ready = job :: rest)
    (hne : job ≠ .heed task) : ({ h with ready := rest } : Host).Hears task seen last := by
  obtain hknows | ⟨hlt, hheed, hlast⟩ := hhears
  · exact .inl hknows
  · exact .inr ⟨hlt, mem_of_mem_ready hready hne hheed, hlast⟩

private theorem IsReaper.work_eq (hreaper : h.IsReaper task period seen) :
    h.work task due = h.reap task period due := by
  unfold work
  rw [hreaper.duty?_eq]

private theorem IsReaper.heed_of_knows (hreaper : h.IsReaper task period seen)
    (hknows : seen = h.crew.signal.sent) : h.heed task = h := by
  unfold heed
  rw [hreaper.duty?_eq, hreaper.isCalled_eq, hknows]
  simp only [bne_self_eq_false, Bool.false_eq_true, if_false]

private theorem IsReaper.heed_of_called (hreaper : h.IsReaper task period seen)
    (hcalled : seen < h.crew.signal.sent) :
    h.heed task =
      if h.crew.signal.value then ({ h with crew := h.crew.look task } : Host).finish task
      else { h with crew := h.crew.look task } := by
  unfold heed
  rw [hreaper.duty?_eq, hreaper.isCalled_eq]
  simp only [bne_iff_ne, ne_eq, hcalled.ne, not_false_eq_true, if_true]
  rfl

private theorem duty?_finish_self (h : Host) (task : Nat) : (h.finish task).crew.duty? task = none := by
  rw [finish, Crew.duty?_finish, if_pos rfl]

/-- A reaper that has ended for a reason: the last signal was one to stop, or the clock cannot be read.
-/
structure HasEnded (h : Host) (task : Nat) (last : Option Bool) : Prop where
  duty : h.crew.duty? task = none
  reason : last = some true ∨ ¬∃ now, h.office.clock.read = .ok now

/-- A reaper whose turn it is purges the store, and is lost if it cannot read the clock. A turn that
comes before its time leaves the purge that is still to come. -/
theorem IsReaper.work (hreaper : h.IsReaper task period seen) (hhears : h.Hears task seen last)
    (hperiod : 0 < period) (hcomes : due ≤ h.nanos ∨ h.Comes task period) :
    (h.work task due).Tends task period last ∨ (h.work task due).HasEnded task last := by
  rw [hreaper.work_eq]
  cases hread : h.office.clock.read with
  | ok now =>
    have hturned := h.turned_reap task period due
    have hstays : (h.reap task period due).IsReaper task period seen := by
      rw [reap_of_read hread]
      exact hreaper
    refine .inl ⟨?_, seen, hstays, hhears.of_turned hturned⟩
    obtain hdue | hcomes := hcomes
    · exact .inr ⟨_, purgesAt_reap hread hdue hperiod⟩
    · exact hcomes.of_turned hturned
  | error crash =>
    rw [reap_of_error hread]
    refine .inr ⟨h.duty?_finish_self task, .inr ?_⟩
    rintro ⟨now, hok⟩
    cases hok.symm.trans hread

theorem IsReaper.heed (hreaper : h.IsReaper task period seen) (hcomes : h.Comes task period)
    (hhears : seen = h.crew.signal.sent ∧ last ≠ some true ∨
      seen < h.crew.signal.sent ∧ last = some h.crew.signal.value) :
    (h.heed task).Tends task period last ∨ (h.heed task).HasEnded task last := by
  have hstays := hcomes.of_turned (h.turned_heed task)
  obtain ⟨hknows, hlast⟩ | ⟨hcalled, hlast⟩ := hhears
  · rw [hreaper.heed_of_knows hknows]
    exact .inl ⟨hcomes, seen, hreaper, .inl ⟨hknows, hlast⟩⟩
  · rw [hreaper.heed_of_called hcalled] at hstays ⊢
    split
    · next hvalue =>
      exact .inr ⟨duty?_finish_self _ task, .inl (hlast.trans (congrArg some hvalue))⟩
    · next hvalue =>
      rw [if_neg hvalue] at hstays
      refine .inl ⟨hstays, _, Crew.getElem?_look hreaper, .inl ⟨rfl, ?_⟩⟩
      rw [hlast]
      exact fun h => hvalue (Option.some.inj h)

theorem Tends.turn (htends : h.Tends task period last) (hperiod : 0 < period) :
    h.turn.Tends task period last ∨ h.turn.HasEnded task last := by
  cases hready : h.ready with
  | nil =>
    have hsame : h.turn = h := by
      unfold Host.turn
      rw [hready]
    rw [hsame]
    exact .inl htends
  | cons job rest =>
    rw [turn_of_ready hready]
    obtain ⟨hcomes, seen, hreaper, hhears⟩ := htends
    have hnext : ({ h with ready := rest } : Host).IsReaper task period seen := hreaper
    by_cases hwork : ∃ due, job = .work task due
    · obtain ⟨due, rfl⟩ := hwork
      refine hnext.work (hhears.drop hready nofun) hperiod (or_iff_not_imp_left.mpr fun hearly => ?_)
      exact hcomes.drop hready fun due' hdue' hsame => hearly ((Job.work.inj hsame).2 ▸ hdue')
    · have hcomes' := hcomes.drop hready fun due _ hjob => hwork ⟨due, hjob⟩
      by_cases hheed : job = .heed task
      · subst hheed
        exact hnext.heed hcomes' (hhears.imp_right fun ⟨hlt, _, hlast⟩ => ⟨hlt, hlast⟩)
      · have hother : job.isOfTask task = false := by
          cases job with
          | work id due => exact beq_eq_false_iff_ne.mpr fun h => hwork ⟨due, h ▸ rfl⟩
          | heed id => exact beq_eq_false_iff_ne.mpr fun h => hheed (h ▸ rfl)
          | feed index => rfl
          | read index => rfl
        have hturned := turned_perform { h with ready := rest } job
        exact .inl ⟨hcomes'.of_turned hturned, seen, hnext.perform_of_other hother,
          (hhears.drop hready hheed).of_turned hturned⟩

/-! ### Steps of a host with a reaper -/

def Step.signal? : Step → Option Bool
  | .signal value => some value
  | .turn | .pass _ | .call _ => none

def lastSignal? (steps : List Step) : Option Bool := (steps.filterMap Step.signal?).getLast?

private theorem lastSignal?_concat (steps : List Step) (s : Step) :
    lastSignal? (steps ++ [s]) = s.signal?.or (lastSignal? steps) := by
  unfold lastSignal?
  rw [List.filterMap_append]
  cases hs : s.signal? with
  | none => rw [List.filterMap_cons_none hs, List.filterMap_nil, List.append_nil, Option.none_or]
  | some value =>
    rw [List.filterMap_cons_some hs, List.filterMap_nil, List.getLast?_concat, Option.some_or]

private theorem lastSignal?_append_turns (steps : List Step) (turns : Nat) :
    lastSignal? (steps ++ List.replicate turns .turn) = lastSignal? steps := by
  unfold lastSignal?
  rw [List.filterMap_append, List.filterMap_replicate_of_none rfl, List.append_nil]

private theorem mem_of_lastSignal? {steps : List Step} {value : Bool}
    (hlast : lastSignal? steps = some value) :
    .signal value ∈ steps := by
  obtain ⟨s, hs, hvalue⟩ := List.mem_filterMap.mp (List.mem_of_getLast? hlast)
  cases s with
  | signal v =>
    cases hvalue
    exact hs
  | turn | pass | call => cases hvalue

theorem Tends.send (htends : h.Tends task period last) (value : Bool) :
    (h.send value).Tends task period (some value) := by
  obtain ⟨hcomes, seen, hreaper, hhears⟩ := htends
  have hsignal : (h.send value).crew.signal = ⟨value, h.crew.signal.sent + 1⟩ :=
    Crew.signal_send hreaper.duty?_eq value
  have hseen : seen ≤ h.crew.signal.sent := hhears.elim (fun h => h.1.le) fun h => h.1.le
  refine ⟨?_, seen, (congrArg (·[task]?) (h.crew.tasks_send value)).trans hreaper, .inr ?_⟩
  · obtain ⟨due, hdue, hready⟩ | ⟨due, halarm, hahead, hnear, hlasts⟩ := hcomes
    · exact .inl ⟨due, hdue, List.mem_append_left _ hready⟩
    · exact .inr ⟨due, halarm, hahead, hnear, hlasts⟩
  · rw [hsignal]
    refine ⟨Nat.lt_succ_of_le hseen, mem_ready_send.mpr (.inr ⟨task, ?_, rfl⟩), rfl⟩
    exact h.crew.mem_running task hreaper.duty?_eq

/-- Each step leaves a reaper at work, or ends it for a reason. -/
theorem Tends.step (htends : h.Tends task period last) (hperiod : 0 < period) (s : Step) :
    (h.step s).Tends task period (s.signal?.or last) ∨
      (h.step s).HasEnded task (s.signal?.or last) := by
  cases s with
  | turn => exact htends.turn hperiod
  | pass ticks =>
    obtain ⟨hcomes, seen, hreaper, hhears⟩ := htends
    refine .inl ⟨?_, seen, hreaper, ?_⟩
    · have hlater : h.ticks ≤ h.ticks + ticks := Nat.le_add_right _ _
      obtain ⟨due, hdue, hready⟩ | ⟨due, hpurge⟩ := hcomes
      · have hnow : h.nanos ≤ (h.reach (h.ticks + ticks)).nanos := Timer.nanosAt_le_nanosAt hlater
        exact .inl ⟨due, hdue.trans hnow, List.mem_append_left _ hready⟩
      · exact hpurge.reach hlater
    · exact hhears.imp_right fun ⟨hlt, hheed, hlast⟩ => ⟨hlt, List.mem_append_left _ hheed, hlast⟩
  | call c =>
    obtain ⟨hcomes, seen, hreaper, hhears⟩ := htends
    exact .inl ⟨hcomes.of_turned (h.turned_call c), seen, hreaper, hhears.of_turned (h.turned_call c)⟩
  | signal value => exact .inl (htends.send value)

/-- A run of steps leaves a reaper at work, or it ends it for a reason; by induction on the latest
step. -/
theorem Tends.after (htends : h.Tends task period none) (hperiod : 0 < period) (steps : List Step) :
    (h.after steps).Tends task period (lastSignal? steps) ∨
      (h.after steps).crew.duty? task = none ∧ (.signal true ∈ steps ∨
        ¬((∃ now, h.office.clock.read = .ok now) ∧
          ∃ now, (h.after steps).office.clock.read = .ok now)) := by
  induction steps using List.reverseRecOn with
  | nil => exact .inl htends
  | append_singleton steps s ih =>
    rw [after_concat, lastSignal?_concat]
    have hearlier := h.nanos_le_after steps
    have hlater := (h.after steps).nanos_le_step s
    rcases ih with hgoing | ⟨hended, hreason⟩
    · refine (hgoing.step hperiod s).imp_right fun ⟨hended, hreason⟩ => ⟨hended, ?_⟩
      exact hreason.imp (fun hlast => mem_of_lastSignal? ((lastSignal?_concat steps s).trans hlast))
        fun hlost hread => hlost hread.2
    · refine .inr ⟨?_, hreason.imp (List.mem_append_left _) fun hlost hread => hlost ⟨hread.1, ?_⟩⟩
      · refine Option.eq_none_iff_forall_ne_some.mpr fun d hd => ?_
        rw [((h.after steps).runsDown_step s).duty task d hd] at hended
        cases hended
      · exact Clock.exists_read_of_between hearlier hlater hread.1 hread.2

private theorem tends_addReaper (h : Host) (interval : Duration) :
    (h.addReaper interval).Tends h.crew.size (Nat.max 1000000 interval.timerNanos) none where
  comes := .inl ⟨h.nanos, le_rfl, List.mem_append_right _ (List.mem_singleton.mpr rfl)⟩
  hears := ⟨h.crew.signal.sent, List.getElem?_concat_length, .inl ⟨rfl, nofun⟩⟩

/-! ### What a reaper takes out -/

/-- An entry goes in the next turn, which is one of a task. -/
structure Reclaims (h : Host) (task : Nat) (key : String) (e : Entry) : Prop where
  isTurn : ∃ job ∈ h.ready.head?, job.isOfTask task = true
  before : h.office.store.store.entries[key]? = some e
  gone : h.turn.office.store.store.entries[key]? ≠ some e

private theorem office_heed (hduty : ∀ d, h.crew.duty? task = some d → d = .reap period) :
    (h.heed task).office = h.office := by
  unfold heed
  split
  · rfl
  · next d hd =>
    obtain rfl := hduty d hd
    split
    · simp only
      split <;> rfl
    · rfl

private theorem getElem?_reap {key : String} {e : Entry}
    (he : h.office.store.store.entries[key]? = some e)
    (hlive : h.office.clock.nanos < e.expiresAt.nanos) :
    (h.reap task period due).office.store.store.entries[key]? = some e := by
  cases hread : h.office.clock.read with
  | ok now =>
    rw [reap_of_read hread]
    change (h.office.store.store.purge now).entries[key]? = some e
    rw [Store.getElem?_purge]
    exact Option.filter_eq_some_iff.mpr
      ⟨he, Entry.isLive_iff.mpr ((Clock.nanos_of_read hread).trans_lt hlive)⟩
  | error crash =>
    rw [reap_of_error hread]
    exact he

/-- A reaper that takes out an entry is running, and the entry is past its time. -/
theorem Reclaims.expired {key : String} {e : Entry} (hreclaims : h.Reclaims task key e)
    (hduty : ∀ d, h.crew.duty? task = some d → d = .reap period) :
    h.crew.isRunning task = true ∧ e.expiresAt.nanos ≤ h.office.clock.nanos := by
  obtain ⟨⟨job, hhead, hjob⟩, hbefore, hgone⟩ := hreclaims
  obtain ⟨rest, hready⟩ := List.head?_eq_some_iff.mp hhead
  rw [turn_of_ready hready] at hgone
  cases job with
  | work id due =>
    obtain rfl : id = task := beq_iff_eq.mp hjob
    change (({ h with ready := rest } : Host).work id due).office.store.store.entries[key]? ≠ _ at hgone
    unfold work at hgone
    cases hd : h.crew.duty? id with
    | none =>
      simp only [hd] at hgone
      exact absurd hbefore hgone
    | some d =>
      obtain rfl := hduty d hd
      simp only [hd] at hgone
      refine ⟨(h.crew.isRunning_iff id).mpr ⟨_, hd⟩, Int.not_lt.mp fun hlive => hgone ?_⟩
      exact getElem?_reap (h := { h with ready := rest }) hbefore hlive
  | heed id =>
    obtain rfl : id = task := beq_iff_eq.mp hjob
    refine absurd ?_ hgone
    change (({ h with ready := rest } : Host).heed id).office.store.store.entries[key]? = some e
    rw [office_heed (h := { h with ready := rest }) hduty]
    exact hbefore
  | feed index => cases hjob
  | read index => cases hjob

/-! ### In time -/

/-- A reaper that was started with an interval does its work in time, after some steps. -/
structure ReapsInTime (start : Host) (task : Nat) (interval : Duration) (steps : List Step) : Prop where
  /-- When a host has settled, no entry has been past its time for an interval while the reaper runs. -/
  inTime : (start.after steps).settle.crew.isRunning task = true → ∀ (key : String) (e : Entry),
    (start.after steps).settle.office.store.store.entries[key]? = some e →
      (start.after steps).settle.office.clock.nanos <
        e.expiresAt.nanos + (Duration.max (.ofMillis 1) interval).nanos
  /-- It takes out no entry before its time. -/
  notEarly : ∀ (key : String) (e : Entry), (start.after steps).Reclaims task key e →
    e.expiresAt.nanos ≤ (start.after steps).office.clock.nanos
  /-- A signal to stop, once all have seen it, is the end of the reaper. -/
  stops : lastSignal? steps = some true → (start.after steps).settle.crew.isRunning task = false
  /-- A reaper that has ended takes out nothing more. -/
  idle : (start.after steps).crew.isRunning task = false →
    ∀ (later : List Step) (key : String) (e : Entry),
    ¬(start.after (steps ++ later)).Reclaims task key e
  /-- Only a signal to stop ends the reaper, as long as the clock can be read. -/
  goesOn : .signal true ∉ steps → (∃ now, start.office.clock.read = .ok now) →
    (∃ now, (start.after steps).office.clock.read = .ok now) →
      (start.after steps).crew.isRunning task = true
  /-- To settle, and to let time pass, are steps that come by themselves. -/
  settles : ∃ later : List Step, (∀ s ∈ later, s.isOwn = true) ∧
    (start.after steps).settle = start.after (steps ++ later)
  advances : ∀ target, ∃ later : List Step, (∀ s ∈ later, s.isOwn = true) ∧
    (start.after steps).advanceTo target = start.after (steps ++ later)

theorem period_eq (interval : Duration) :
    ((Nat.max 1000000 interval.timerNanos : Nat) : Int) =
      (Duration.max (.ofMillis 1) interval).nanos := by
  have hmax : Nat.max 1000000 interval.timerNanos = max 1000000 interval.nanos.toNat := rfl
  rw [hmax]
  unfold Duration.max
  split
  · next hlt =>
    change (1000000 : Int) < interval.nanos at hlt
    omega
  · next hle =>
    change ¬(1000000 : Int) < interval.nanos at hle
    change _ = (1000000 : Int)
    omega

private theorem Tends.of_settled (htends : h.Tends task period last)
    (hsettled : ∀ j ∈ h.ready, j.isOfFeed = true) :
    (∃ due, h.PurgesAt task period due) ∧ last ≠ some true := by
  obtain ⟨hcomes, seen, -, hhears⟩ := htends
  refine ⟨hcomes.resolve_left fun ⟨_, _, hin⟩ => Bool.false_ne_true (hsettled _ hin), ?_⟩
  obtain ⟨-, hlast⟩ | ⟨-, hin, -⟩ := hhears
  · exact hlast
  · exact absurd (hsettled _ hin) Bool.false_ne_true

section Run

variable {interval : Duration} {steps : List Step}

theorem period_pos (interval : Duration) : 0 < Nat.max 1000000 interval.timerNanos :=
  Nat.lt_of_lt_of_le (by decide) (Nat.le_max_left 1000000 _)

/-- A new reaper that runs when a host has settled waits for its next purge, and the last signal was
none to stop: the turns in which the host settles send no signal. -/
theorem waits_of_isRunning
    (hrun : ((h.addReaper interval).after steps).settle.crew.isRunning h.crew.size = true) :
    (∃ due, ((h.addReaper interval).after steps).settle.PurgesAt h.crew.size
      (Nat.max 1000000 interval.timerNanos) due) ∧ lastSignal? steps ≠ some true := by
  have hafter := (h.tends_addReaper interval).after (period_pos interval)
    (steps ++ List.replicate ((h.addReaper interval).after steps).turns .turn)
  rw [after_append, ← settle_eq_after, lastSignal?_append_turns] at hafter
  have hgoing := hafter.resolve_right fun hended => Option.isSome_iff_ne_none.mp hrun hended.1
  exact hgoing.of_settled isOfFeed_of_mem_settle

private theorem eq_reap_of_duty? {d : Duty}
    (hd : ((h.addReaper interval).after steps).crew.duty? h.crew.size = some d) :
    d = .reap (Nat.max 1000000 interval.timerNanos) := by
  have hfirst := ((h.addReaper interval).runsDown_after steps).duty _ d hd
  exact Option.some.inj (hfirst.symm.trans ((h.crew.duty?_hire _ _).trans (if_pos rfl)))

end Run

/-- A reaper does its work in time on any host, with any interval and whatever happens after it was
started. -/
theorem reapsInTime_addReaper (h : Host) (interval : Duration) (steps : List Step) :
    ReapsInTime (h.addReaper interval) h.crew.size interval steps where
  inTime hrun key e he := by
    obtain ⟨⟨due, hpurge⟩, -⟩ := waits_of_isRunning hrun
    rw [← period_eq]
    exact hpurge.lt_expiry he
  notEarly key e hreclaims := (hreclaims.expired fun d => eq_reap_of_duty?).2
  stops hlast := Bool.eq_false_iff.mpr fun hrun => (waits_of_isRunning hrun).2 hlast
  idle hidle later key e hreclaims := by
    have hrun := (hreclaims.expired fun d => eq_reap_of_duty?).1
    obtain ⟨d, hd⟩ := (Crew.isRunning_iff _ _).mp hrun
    rw [after_append] at hd
    have hbefore := (((h.addReaper interval).after steps).runsDown_after later).duty _ d hd
    rw [(Crew.isRunning_iff _ _).mpr ⟨d, hbefore⟩] at hidle
    cases hidle
  goesOn hsignal hfirst hread := by
    rcases (h.tends_addReaper interval).after (period_pos interval) steps with
      ⟨-, seen, hreaper, -⟩ | ⟨-, htold | hlost⟩
    · exact (Crew.isRunning_iff _ _).mpr ⟨_, hreaper.duty?_eq⟩
    · exact absurd htold hsignal
    · exact absurd ⟨hfirst, hread⟩ hlost
  settles := ⟨_, isOwn_of_mem_turns, by rw [settle_eq_after, after_append]⟩
  advances target := by
    obtain ⟨later, hown, hlater⟩ := ((h.addReaper interval).after steps).exists_advanceTo target
    exact ⟨later, hown, hlater.trans (after_append _ steps later).symm⟩

/-- A reaper with an interval of ten milliseconds, which has its third turn late: it runs, and an entry
that expired after fifteen of them is gone after twenty-five. -/
theorem reapsInTime_addReaper_ten :
    let old : Entry := ⟨"v", ⟨15000000, by decide⟩⟩
    let store := (Store.empty 1).insert "k" old
    let h := quiet ⟨.empty, .standard⟩ ⟨⟨0, 0⟩, .sound store, .scripted (.empty "none"), 0⟩
    let start := h.addReaper (.ofMillis 10)
    let steps : List Step := [.turn, .pass 10, .turn, .pass 15]
    ReapsInTime start h.crew.size (.ofMillis 10) steps ∧
      (start.after steps).settle.crew.isRunning h.crew.size = true ∧
      (start.after steps).settle.office.clock.nanos = 25000000 ∧
      (start.after steps).settle.office.store.store.entries["k"]? ≠ some old := by
  intro old store h start steps
  have hreaps : ReapsInTime start h.crew.size (.ofMillis 10) steps := h.reapsInTime_addReaper _ steps
  have hrunning : (start.after steps).settle.crew.isRunning h.crew.size = true := by decide +kernel
  have hclock : (start.after steps).settle.office.clock.nanos = 25000000 := by decide +kernel
  refine ⟨hreaps, hrunning, hclock, fun hold => ?_⟩
  have hlate := hreaps.inTime hrunning "k" old hold
  have hend : old.expiresAt.nanos + (Duration.max (.ofMillis 1) (.ofMillis 10)).nanos = 25000000 := rfl
  exact hlate.ne (hclock.trans hend.symm)

end Host

end Bureau
