import Bureau.Proofs.Host.Stopping
import Bureau.Proofs.Node.Silence
import Bureau.Proofs.Office.Background

/-!
Stops that return. A stop returns at once and leaves nothing to do if every feed waits for its next
batch or has ended; without feeds it always does, however often the node was started and stopped
before.
-/

set_option autoImplicit false

namespace Bureau

private theorem Feed.restsAt_settle_start (d : Desk) {pairs : List CurrencyPair} (interval : Duration)
    (reader : Reader) (batchFirst : Nat → Bool) {o : Office} {now : Instant}
    (hread : o.clock.read = .ok now) (hfaults : o.store.faults = .const .none)
    (hpairs : pairs.length ≤ capacity) :
    ((start pairs interval reader batchFirst o.ticks).settle d o).1.RestsAt
      (Timer.nanosAt o.ticks) := by
  generalize hf : start pairs interval reader batchFirst o.ticks = f
  unfold start at hf
  split at hf
  · next hpos =>
      have hphase : f.phase = .idle (Timer.nanosAt o.ticks) := hf ▸ rfl
      have hopen : f.isClosing = false := hf ▸ rfl
      have hroom : f.pairs.length ≤ f.room := hf ▸ hpairs
      have hreceiving : f.receiving = true := hf ▸ rfl
      rw [settle_of_idle_phase o hphase]
      generalize Timer.nanosAt o.ticks = due
      have hnext : due < f.following due due := f.lt_following due due
      obtain ⟨outcome, o', hperform⟩ := Office.perform_of_sound d hread hfaults (d.rates f.pairs)
      have hbatch := Office.yields_perform (d.yields_rates f.pairs) o
      rw [tick_of_due d le_rfl (f.goesOn_of_open hopen), f.decided_of_open hopen]
      rw [hperform] at hbatch ⊢
      cases outcome with
      | error crash => exact .inr rfl
      | ok batch =>
        have hlength : batch.length ≤ f.pairs.length := hbatch
        have hfits : batch.length ≤ f.room := hlength.trans hroom
        have haccept : f.accept (f.following due due) (.ofOutcome (.ok batch)) =
            { f with queue := f.queue ++ batch, phase := .idle (f.following due due) } :=
          deliver_of_room hreceiving hfits
        simp only [haccept, isIdle, if_true]
        have hearly := tick_of_early d (o := o') (f := { f with
          queue := f.queue ++ batch, phase := .idle (f.following due due) }) hopen hnext
        rw [hearly]
        exact .inl ⟨_, rfl, hnext⟩
  · have hended : f.hasEnded = true := hf ▸ rfl
    rw [settle_eq_of_hasEnded o hended]
    exact .inr hended

namespace Host

variable {h k : Host}

private theorem IsAtRest.of_feeds_eq_nil (hfeeds : h.feeds = []) : h.IsAtRest := by
  refine ⟨fun f hf => ?_, fun i hi => ?_⟩
  · rw [hfeeds] at hf
    cases hf
  · rw [hfeeds] at hi
    cases hi

private theorem ready_runFeed_of_mem {index : Nat} (hread : .read index ∈ h.ready) :
    (h.runFeed index).ready = h.ready := by
  obtain ⟨desk, office, feeds, crew, agenda, ready, journal⟩ := h
  unfold runFeed
  simp only
  split
  · rfl
  · split
    · rw [ready_wake, if_pos hread]
    · rfl

private theorem performReady_of_ready_nil (hready : h.ready = []) (turns : Nat) :
    performReady turns h = h := by
  cases turns with
  | zero => rfl
  | succ turns =>
      unfold performReady
      rw [hready]

private theorem settle_of_feed {f : Feed} {index : Nat} (hf : h.feeds[index]? = some f)
    (hline : h.ready = [.feed index, .read index])
    (hrests : (f.settle h.desk h.office).1.RestsAt h.nanos) :
    h.settle.feeds = h.feeds.set index (collect (f.settle h.desk h.office).1).2 ∧
      h.settle.ready = [] ∧ h.settle.nanos = h.nanos := by
  let ran := ({ h with ready := [.read index] } : Host).runFeed index
  let done := ({ ran with ready := [] } : Host).readFeed index
  have hran : ran.feeds = h.feeds.set index (f.settle h.desk h.office).1 :=
    (runFeed_of_some (h := { h with ready := [.read index] }) hf).2
  have hself : ran.feeds[index]? = some (f.settle h.desk h.office).1 := by
    rw [hran]
    exact getElem?_set_self_of_some hf _
  have hranReady : ran.ready = [.read index] :=
    ready_runFeed_of_mem (h := { h with ready := [.read index] }) (List.mem_singleton.mpr rfl)
  have hdone : done.feeds = ran.feeds.set index (collect (f.settle h.desk h.office).1).2 :=
    (readFeed_of_some (h := { ran with ready := [] }) hself).2
  have hdoneReady : done.ready = [] := ready_readFeed (h := { ran with ready := [] }) hself hrests
  have hnow : done.nanos = h.nanos :=
    (turned_readFeed { ran with ready := [] } index).nanos_eq.trans
      (turned_runFeed { h with ready := [.read index] } index).nanos_eq
  have hsettle : h.settle = done := by
    have hturns := h.le_turns
    obtain ⟨turns, hcount⟩ : ∃ turns, h.turns = turns + 2 := by
      rw [hline, List.length_cons, List.length_singleton] at hturns
      exact ⟨h.turns - 2, by omega⟩
    have hfirst : performReady (turns + 2) h = performReady (turns + 1) ran := by
      rw [performReady, hline]
      rfl
    have hsecond : performReady (turns + 1) ran = performReady turns done := by
      rw [performReady, hranReady]
      rfl
    rw [settle, hcount, hfirst, hsecond, performReady_of_ready_nil hdoneReady]
  rw [hsettle]
  refine ⟨?_, hdoneReady, hnow⟩
  rw [hdone, hran, List.set_set]

private theorem isAtRest_settle_addFeed (hrest : h.IsAtRest) (hready : h.ready = []) {now : Instant}
    (hread : h.office.clock.read = .ok now) (hfaults : h.office.store.faults = .const .none)
    {pairs : List CurrencyPair} (hpairs : pairs.length ≤ Feed.capacity) (interval : Option Duration)
    (batchFirst : Nat → Bool) :
    (h.addFeed pairs interval .journal batchFirst).settle.IsAtRest := by
  let feed := Feed.start pairs (h.feedInterval interval) .journal batchFirst h.ticks
  generalize hadded : h.addFeed pairs interval .journal batchFirst = added
  have hfeeds : added.feeds = h.feeds ++ [feed] :=
    hadded ▸ Node.feeds_addFeed h pairs interval batchFirst
  have hline : added.ready = [.feed h.feeds.length, .read h.feeds.length] := by
    rw [← hadded]
    unfold addFeed
    simp [ready_wake, hready]
  have hoffice : added.office = h.office := by
    rw [← hadded]
    unfold addFeed
    simp
  have hnow : added.nanos = h.nanos := by rw [nanos, nanos, ticks, ticks, hoffice]
  have hself : added.feeds[h.feeds.length]? = some feed := by
    rw [hfeeds]
    exact List.getElem?_concat_length
  have hrests : (feed.settle added.desk added.office).1.RestsAt h.nanos := by
    rw [hoffice]
    exact Feed.restsAt_settle_start added.desk _ .journal batchFirst hread hfaults hpairs
  obtain ⟨hfeeds', hready', hnow'⟩ := settle_of_feed hself hline (by rw [hnow]; exact hrests)
  rw [hfeeds, List.set_append_right _ _ le_rfl, Nat.sub_self, List.set_cons_zero] at hfeeds'
  refine ⟨fun f hf => ?_, fun i _ hin => ?_⟩
  · rw [hnow', hnow]
    rw [hfeeds'] at hf
    rcases List.mem_append.mp hf with hold | hnew
    · exact hrest.feeds f hold
    · rw [List.mem_singleton.mp hnew]
      exact restsAt_collect hrests
  · rw [hready'] at hin
    cases hin

private theorem isCalm_addReporter (hcalm : h.IsCalm) (interval : Duration) :
    (Node.addReporter h interval).IsCalm := by
  unfold Node.addReporter
  split
  · exact hcalm
  · exact isCalm_employ hcalm fun _ => nofun

private theorem isCalm_addFeed (hcalm : h.IsCalm) (pairs : List CurrencyPair)
    (interval : Option Duration) (batchFirst : Nat → Bool) :
    (h.addFeed pairs interval .journal batchFirst).IsCalm := by
  obtain ⟨-, -, hreceiving, hstopping, -⟩ :=
    Feed.start_eq pairs (h.feedInterval interval) .journal batchFirst h.ticks
  have hfeeds := Node.feeds_addFeed h pairs interval batchFirst
  refine hcalm.hire (Node.crew_addFeed h pairs interval batchFirst) (fun i f hf => ?_) (fun i f hf => ?_)
    fun i hi => ?_
  · rw [hfeeds, List.getElem?_append_left (List.getElem?_eq_some_iff.mp hf).1, hf]
  · rw [hfeeds] at hf
    obtain hf | ⟨-, rfl⟩ := Node.getElem?_concat_cases hf
    · exact .inl hf
    · exact .inr hstopping
  · cases hi
    rw [hfeeds]
    exact ⟨_, List.getElem?_concat_length, hreceiving⟩

end Host

namespace Node

variable {n k : Node}

/-- A node that keeps the handles of its tasks, none of which has a signal to see. -/
structure IsOrderly (n : Node) : Prop where
  kept : n.IsKept
  calm : n.host.IsCalm

theorem IsOrderly.act (hn : n.IsOrderly) {a : NodeAct} (hk : n.after? a = some k) : k.IsOrderly := by
  refine ⟨hn.kept.act hk, ?_⟩
  cases a with
  | start =>
      obtain ⟨h, hcalm, rfl | rfl⟩ :=
        after?_start Host.isCourse_isCalm (fun h o hcalm => hcalm.of_eq rfl rfl) hk
      · exact hcalm hn.calm
      · have hreaper : (h.addReaper n.settings.reaperInterval).IsCalm :=
          Host.isCalm_employ (hcalm hn.calm) fun _ => nofun
        exact Host.isCalm_addReporter hreaper n.settings.statsInterval
  | addFeed pairs interval batchFirst =>
      cases hk
      exact Host.isCalm_addFeed hn.calm pairs interval batchFirst
  | stop => exact (hn.kept.isSilent_of_stop hk).host.isCalm
  | pass ticks =>
      cases hk
      exact Host.isCourse_isCalm.advanceTo _ _ hn.calm
  | settle =>
      cases hk
      exact Host.isCourse_isCalm.settle _ hn.calm

private theorem isOrderly_of_make {settings : NodeSettings} {id : String}
    {readFile : String → Except String String} {clock : Clock} {entropy : UInt64}
    (hn : make settings id readFile clock entropy = .ok n) : n.IsOrderly := by
  refine ⟨isKept_of_make hn, ?_⟩
  obtain ⟨desk, office, hquiet⟩ := host_of_make hn
  rw [hquiet]
  exact ⟨fun id d hd => (nomatch hd), fun i f hf => (nomatch hf), fun id i hd => (nomatch hd)⟩

/-- A stop lets everything run once, which is enough. -/
theorem IsOrderly.after?_stop (hn : n.IsOrderly) (hrest : n.host.IsAtRest) :
    n.after? .stop =
      some { n with state := .stopped, host := (n.host.send true).settle, handles := [] } := by
  have htasks := (Host.settle_send_of_isAtRest hn.kept.manned hn.calm hrest).1
  have hended : (n.host.send true).settle.haveEnded n.handles = true := by
    refine List.all_eq_true.mpr fun id _ => ?_
    rw [Crew.isRunning, htasks]
    rfl
  have hwaited : n.waited = (n.host.send true).settle := Host.advanceUntil_of_settle hended _ _
  rw [Node.after?_stop, hwaited, if_pos hended]

/-- A node can be stopped whenever its feeds are at rest, whatever has been done with it and however
often it was stopped before. The stop takes no time, and leaves nothing to do. -/
theorem stop_returns {settings : NodeSettings} {id : String}
    {readFile : String → Except String String} {clock : Clock} {entropy : UInt64} {new : Node}
    (hnew : make settings id readFile clock entropy = .ok new) {acts : List NodeAct}
    (hacts : new.run? acts = some n) (hrest : n.host.IsAtRest) :
    ∃ k, n.after? .stop = some k ∧ k.host.ready = [] := by
  have hn := of_run (P := IsOrderly) (fun _ _ _ _ hn hk => hn.act hk) (isOrderly_of_make hnew) hacts
  have hready := (Host.settle_send_of_isAtRest hn.kept.manned hn.calm hrest).2
  exact ⟨_, hn.after?_stop hrest, hready⟩

private theorem feeds_addReporter (h : Host) (interval : Duration) :
    (addReporter h interval).feeds = h.feeds := by
  unfold addReporter
  split <;> rfl

private theorem feeds_eq_nil_of_act (hn : n.host.feeds = []) {a : NodeAct}
    (ha : ∀ pairs interval batchFirst, a ≠ .addFeed pairs interval batchFirst)
    (hk : n.after? a = some k) :
    k.host.feeds = [] := by
  have hdown : ∀ {h : Host}, n.host.RunsDown h → h.feeds = [] := fun hdown =>
    List.eq_nil_of_length_eq_zero (by rw [hdown.length_eq, hn, List.length_nil])
  cases a with
  | start =>
      obtain ⟨h, hserved, rfl | rfl⟩ :=
        after?_start Host.isCourse_runsDown (fun h o => .of_eq rfl rfl) hk
      · exact hdown hserved
      · have hnone : h.feeds = [] := hdown hserved
        exact (feeds_addReporter (h.addReaper _) _).trans hnone
  | addFeed pairs interval batchFirst => exact absurd rfl (ha pairs interval batchFirst)
  | stop =>
      rw [after?_stop] at hk
      split at hk
      · cases hk
        exact hdown (runsDown_waited n)
      · cases hk
  | pass ticks =>
      cases hk
      exact hdown (Host.isCourse_runsDown.advanceTo _ _)
  | settle =>
      cases hk
      exact hdown (Host.isCourse_runsDown.settle _)

theorem stop_returns_without_feeds {settings : NodeSettings} {id : String}
    {readFile : String → Except String String} {clock : Clock} {entropy : UInt64} {new : Node}
    (hnew : make settings id readFile clock entropy = .ok new) {acts : List NodeAct}
    (hfeeds : ∀ pairs interval batchFirst, .addFeed pairs interval batchFirst ∉ acts)
    (hacts : new.run? acts = some n) :
    ∃ k, n.after? .stop = some k ∧ k.host.ready = [] := by
  have hnone : new.host.feeds = [] := by
    obtain ⟨desk, office, hquiet⟩ := host_of_make hnew
    rw [hquiet]
    rfl
  have hn : n.host.feeds = [] :=
    of_run (P := fun n => n.host.feeds = []) (fun a ha n k hn hk =>
      feeds_eq_nil_of_act hn
        (fun pairs interval batchFirst h => hfeeds pairs interval batchFirst (h ▸ ha))
        hk) hnone hacts
  exact stop_returns hnew hacts (.of_feeds_eq_nil hn)

/-- A stopped node is silent. Once a stop has returned, after whatever was done with the node before
and however often it was stopped, no task and no feed is left. From then on, as long as nothing is
started, the node stays stopped, nothing is noted in its journal, and its office, store included, stays
as it was but for the time. -/
theorem silent_after_stop {settings : NodeSettings} {id : String}
    {readFile : String → Except String String} {clock : Clock} {entropy : UInt64} {new stopped : Node}
    (hnew : make settings id readFile clock entropy = .ok new) {acts : List NodeAct}
    (hstopped : new.run? (acts ++ [.stop]) = some stopped) {later : List NodeAct}
    (hlater : ∀ a ∈ later, a.isQuiet = true) :
    ∃ n, stopped.run? later = some n ∧ n.state = .stopped ∧ n.host.IsSilent ∧
      n.host.journal = stopped.host.journal ∧
      n.host.office = stopped.host.office.setTicks n.host.ticks := by
  rw [run?_append] at hstopped
  obtain ⟨last, hlast, hstop⟩ := Option.bind_eq_some_iff.mp hstopped
  obtain ⟨k, hk, hdone⟩ := Option.bind_eq_some_iff.mp hstop
  cases hdone
  have hkept := of_run (P := IsKept) (fun _ _ _ _ hn hk => hn.act hk) (isKept_of_make hnew) hlast
  have hsilent := hkept.isSilent_of_stop hk
  obtain ⟨n, hn, hsilent', hidles⟩ := hsilent.run hlater
  exact ⟨n, hn, hsilent'.state_eq, hsilent'.host, hidles.journal_eq, hidles.office_eq⟩

/-- A node that was started twice and streams the price of euros: an hour after the second stop it has
noted nothing more. -/
theorem silent_after_stop_again :
    let settings := { NodeSettings.standard with seed := some 7, corridorsPath := some "corridors" }
    let acts : List NodeAct :=
      [.start, .stop, .start, .settle, .addFeed [.euroDollar] none fun _ => true, .settle]
    ∃ new stopped n, make settings "node" (fun _ => .ok "[]") ⟨0, 0⟩ 7 = .ok new ∧
      new.run? (acts ++ [.stop]) = some stopped ∧
      stopped.run? [.pass 3600000, .stop] = some n ∧
      n.state = .stopped ∧ n.host.IsSilent ∧ n.host.journal = stopped.host.journal ∧
      n.host.office = stopped.host.office.setTicks n.host.ticks := by
  intro settings acts
  -- Up to the feed everything can be evaluated, and from there on the node is known to be at rest.
  have hbegin : ((make settings "node" (fun _ => .ok "[]") ⟨0, 0⟩ 7).toOption.bind
      fun new => (new.run? [.start, .stop, .start, .settle]).map fun k =>
        k.host.feeds.isEmpty && k.host.ready.isEmpty && decide (k.host.office.clock = ⟨0, 0⟩) &&
          decide (k.host.office.store.faults = .const .none)) = some true := by decide +kernel
  cases hnew : make settings "node" (fun _ => .ok "[]") ⟨0, 0⟩ 7 with
  | error e =>
      rw [hnew] at hbegin
      cases hbegin
  | ok new =>
      rw [hnew] at hbegin
      obtain ⟨k, hk, hquiet⟩ := Option.map_eq_some_iff.mp hbegin
      simp only [Bool.and_eq_true, List.isEmpty_iff, decide_eq_true_eq] at hquiet
      obtain ⟨⟨⟨hfeeds, hready⟩, hclock⟩, hfaults⟩ := hquiet
      have hread : k.host.office.clock.read = .ok .epoch := by
        rw [hclock]
        rfl
      let fed : Node := k.adopt (k.host.addFeed [.euroDollar] none .journal fun _ => true)
      let settled : Node := { fed with host := fed.host.settle }
      have hrest : settled.host.IsAtRest :=
        Host.isAtRest_settle_addFeed (.of_feeds_eq_nil hfeeds) hready hread hfaults (by decide) _ _
      have hacts : new.run? acts = some settled := by
        have hsplit : acts = [.start, .stop, .start, .settle] ++
            [.addFeed [.euroDollar] none fun _ => true, .settle] := rfl
        rw [hsplit, run?_append, hk]
        rfl
      have hn := of_run (P := IsOrderly) (fun _ _ _ _ hn hk => hn.act hk) (isOrderly_of_make hnew) hacts
      obtain ⟨stopped, hstop⟩ : ∃ stopped, settled.after? .stop = some stopped :=
        ⟨_, hn.after?_stop hrest⟩
      have hstopped : new.run? (acts ++ [.stop]) = some stopped := by
        rw [run?_append, hacts]
        change (settled.after? .stop).bind some = _
        rw [hstop]
        rfl
      obtain ⟨n, hlater, hsilent⟩ := silent_after_stop hnew hstopped
        (show ∀ a ∈ [NodeAct.pass 3600000, .stop], a.isQuiet = true by decide)
      exact ⟨new, stopped, n, rfl, hstopped, hlater, hsilent⟩

end Node

end Bureau
