import Bureau.Host.Subscription
import Bureau.Proofs.Feed.Stopping
import Bureau.Proofs.Host.Course

/-!
Feeds on a host. While time passes the feed of a subscriber has turns, and nothing else happens to it;
so a feed that is stuck stays stuck, and stopping it hangs.
-/

set_option autoImplicit false

namespace Bureau

namespace Feed

private theorem follows_run_turns (d : Desk) (offices : List Office) (f : Feed) :
    Follows f (run d (offices.map .turn) f) := by
  induction offices generalizing f with
  | nil => exact .refl f
  | cons o rest ih => exact (f.follows_settle d o).trans (ih _)

theorem run_append (d : Desk) (past rest : List Act) (f : Feed) :
    run d (past ++ rest) f = run d rest (run d past f) := List.foldl_append

end Feed

namespace Host

/-- A host at a later time: the same desk, and each feed of a subscriber has had turns. -/
structure GivesTurns (h k : Host) : Prop where
  desk_eq : k.desk = h.desk
  feed : ∀ (i : Nat) (f : Feed), h.feeds[i]? = some f → f.reader = .subscriber →
    ∃ offices : List Office, k.feeds[i]? = some (Feed.run h.desk (offices.map .turn) f)

private theorem GivesTurns.of_feeds_eq {h k : Host} (hdesk : k.desk = h.desk)
    (hfeeds : k.feeds = h.feeds) :
    h.GivesTurns k := by
  refine ⟨hdesk, fun i f hf _ => ⟨[], ?_⟩⟩
  rw [hfeeds, hf]
  rfl

theorem GivesTurns.refl (h : Host) : h.GivesTurns h := .of_feeds_eq rfl rfl

theorem GivesTurns.trans {h k l : Host} (hk : h.GivesTurns k) (kl : k.GivesTurns l) :
    h.GivesTurns l := by
  refine ⟨kl.desk_eq.trans hk.desk_eq, fun i f hf hreader => ?_⟩
  obtain ⟨first, hfirst⟩ := hk.feed i f hf hreader
  have hreader' := (Feed.follows_run_turns h.desk first f).reader_eq.trans hreader
  obtain ⟨second, hsecond⟩ := kl.feed i _ hfirst hreader'
  refine ⟨first ++ second, ?_⟩
  rw [hsecond, hk.desk_eq, List.map_append, Feed.run_append]

/-! ### Jobs -/

@[simp] theorem desk_wake (h : Host) (job : Job) : (h.wake job).desk = h.desk := by
  unfold wake
  split <;> rfl

@[simp] theorem office_wake (h : Host) (job : Job) : (h.wake job).office = h.office := by
  unfold wake
  split <;> rfl

@[simp] theorem feeds_wake (h : Host) (job : Job) : (h.wake job).feeds = h.feeds := by
  unfold wake
  split <;> rfl

theorem feeds_updateFeed (h : Host) (index : Nat) (g : Feed → Feed) (noticed : Feed → Bool) :
    (h.updateFeed index g noticed).feeds = h.feeds.modify index g := by
  unfold updateFeed
  simp only
  split
  · exact feeds_wake _ _
  · rfl

private theorem desk_updateFeed (h : Host) (index : Nat) (g : Feed → Feed) (noticed : Feed → Bool) :
    (h.updateFeed index g noticed).desk = h.desk := by
  unfold updateFeed
  simp only
  split
  · exact desk_wake _ _
  · rfl

private theorem givesTurns_reap (h : Host) (task period due : Nat) :
    h.GivesTurns (h.reap task period due) := by
  unfold reap
  cases h.office.clock.read <;> exact .of_feeds_eq rfl rfl

private theorem givesTurns_report (h : Host) (task period due : Nat) :
    h.GivesTurns (h.report task period due) := by
  unfold report
  cases h.office.clock.read <;> exact .of_feeds_eq rfl rfl

private theorem givesTurns_set {h k : Host} {index : Nat} {f g : Feed} (hf : h.feeds[index]? = some f)
    (hdesk : k.desk = h.desk) (hfeeds : k.feeds = h.feeds.set index g)
    (hturns : f.reader = .subscriber →
      ∃ offices : List Office, g = Feed.run h.desk (offices.map .turn) f) : h.GivesTurns k := by
  refine ⟨hdesk, fun i f' hf' hreader => ?_⟩
  rw [hfeeds]
  by_cases hi : index = i
  · subst hi
    rw [hf] at hf'
    cases hf'
    obtain ⟨offices, rfl⟩ := hturns hreader
    exact ⟨offices, List.getElem?_set_self (List.getElem?_eq_some_iff.mp hf).1⟩
  · refine ⟨[], ?_⟩
    rw [List.getElem?_set_ne hi, hf']
    rfl

theorem runFeed_of_none {h : Host} {index : Nat} (hf : h.feeds[index]? = none) :
    h.runFeed index = h := by
  obtain ⟨desk, office, feeds, crew, agenda, ready, journal⟩ := h
  unfold runFeed
  simp only
  rw [hf]

theorem runFeed_of_some {h : Host} {index : Nat} {f : Feed} (hf : h.feeds[index]? = some f) :
    (h.runFeed index).desk = h.desk ∧
      (h.runFeed index).feeds = h.feeds.set index (f.settle h.desk h.office).1 := by
  obtain ⟨desk, office, feeds, crew, agenda, ready, journal⟩ := h
  unfold runFeed
  simp only
  rw [hf]
  simp only
  split
  · exact ⟨desk_wake _ _, feeds_wake _ _⟩
  · exact ⟨rfl, rfl⟩

private theorem givesTurns_runFeed (h : Host) (index : Nat) : h.GivesTurns (h.runFeed index) := by
  cases hf : h.feeds[index]? with
  | none =>
      rw [runFeed_of_none hf]
      exact .refl h
  | some f =>
      obtain ⟨hdesk, hfeeds⟩ := runFeed_of_some hf
      exact givesTurns_set hf hdesk hfeeds fun _ => ⟨[h.office], rfl⟩

theorem readFeed_of_some {h : Host} {index : Nat} {f : Feed} (hf : h.feeds[index]? = some f) :
    (h.readFeed index).desk = h.desk ∧
      (h.readFeed index).feeds = h.feeds.set index (collect f).2 := by
  unfold readFeed
  rw [hf]
  simp only
  split
  · exact ⟨desk_wake _ _, feeds_wake _ _⟩
  · exact ⟨rfl, rfl⟩

private theorem givesTurns_readFeed (h : Host) (index : Nat) : h.GivesTurns (h.readFeed index) := by
  cases hf : h.feeds[index]? with
  | none =>
      unfold readFeed
      rw [hf]
      exact .refl h
  | some f =>
      obtain ⟨hdesk, hfeeds⟩ := readFeed_of_some hf
      refine givesTurns_set hf hdesk hfeeds fun hreader => ⟨[], ?_⟩
      unfold collect
      rw [hreader]
      rfl

private theorem givesTurns_work (h : Host) (task due : Nat) : h.GivesTurns (h.work task due) := by
  unfold work
  split
  · exact h.givesTurns_reap task _ due
  · exact h.givesTurns_report task _ due
  · exact h.givesTurns_readFeed _
  · exact .refl h

private theorem givesTurns_stopReading (h : Host) (index : Nat) :
    h.GivesTurns (h.stopReading index) := by
  have hstop : h.GivesTurns (h.updateFeed index stopFeed Feed.isIdle) := by
    refine ⟨h.desk_updateFeed index _ _, fun i f hf hreader => ⟨[], ?_⟩⟩
    have hsame : stopFeed f = f := by
      unfold stopFeed
      rw [hreader]
    rw [feeds_updateFeed, List.getElem?_modify, hf]
    split <;> simp [hsame, Feed.run]
  unfold stopReading
  simp only
  split
  · exact hstop.trans (.of_feeds_eq (desk_wake _ _) (feeds_wake _ _))
  · exact hstop

private theorem givesTurns_heed (h : Host) (task : Nat) : h.GivesTurns (h.heed task) := by
  have hlook : h.GivesTurns { h with crew := h.crew.look task } := .of_feeds_eq rfl rfl
  unfold heed
  split
  · exact .refl h
  · split
    · simp only
      split
      · split <;> exact hlook.trans (.of_feeds_eq rfl rfl)
      · exact hlook.trans (.of_feeds_eq rfl rfl)
      · exact hlook.trans (givesTurns_stopReading _ _)
    · exact .refl h

private theorem isCourse_givesTurns : IsCourse GivesTurns where
  refl := .refl
  trans := .trans
  next h rest := .of_feeds_eq rfl rfl
  perform h job := by
    cases job with
    | work task due => exact h.givesTurns_work task due
    | heed task => exact h.givesTurns_heed task
    | feed index => exact h.givesTurns_runFeed index
    | read index => exact h.givesTurns_readFeed index
  reach h tick := .of_feeds_eq rfl rfl

/-! ### Changes to one feed -/

theorem feed_updateFeed {h : Host} {index : Nat} {f : Feed} (hf : h.feeds[index]? = some f)
    (g : Feed → Feed) (noticed : Feed → Bool) :
    (h.updateFeed index g noticed).feeds[index]? = some (g f) := by
  rw [feeds_updateFeed, List.getElem?_modify_eq, hf]
  rfl

private theorem feed_advanceUntil_of_isStuck {h : Host} {index : Nat} {f : Feed}
    (hf : h.feeds[index]? = some f) (hreader : f.reader = .subscriber)
    (hreceiving : f.receiving = true) (hsound : f.IsSound) (hstuck : f.isStuck = true)
    (stop : Host → Bool) (target now : Nat) :
    (h.advanceUntil stop target now).feeds[index]? = some f := by
  obtain ⟨offices, hfeed⟩ := (isCourse_givesTurns.advanceUntil stop target now h).feed index f hf hreader
  have hsame : Feed.run h.desk (offices.map .turn) f = f := by
    clear hfeed
    induction offices with
    | nil => rfl
    | cons o rest ih =>
        have hturn : f.act h.desk (.turn o) = f :=
          Feed.settle_of_isStuck o hsound hreceiving hstuck
        change Feed.run h.desk (rest.map .turn) (f.act h.desk (.turn o)) = f
        rw [hturn, ih]
  rw [hfeed, hsame]

end Host

namespace Errand

theorem run_modify_bind {α : Type} (g : Host → Host) (x : PUnit → Errand α) (host : Host) :
    (modify g >>= x).run.run host = (x ⟨⟩).run.run (g host) := rfl

private theorem run_bind_of_error {α β : Type} {x : Errand α} {host next : Host} {e : Halt}
    (h : x.run.run host = (.error e, next)) (g : α → Errand β) :
    (x >>= g).run.run host = (.error e, next) := by
  rw [run_bind, h]

private theorem run_waitForFeed_of_hang {index : Nat} {condition : Feed → Bool} {host last : Host}
    {f : Feed}
    (hlast : host.advanceUntil (fun h => (h.feeds[index]?).all condition) (host.ticks + patience)
      host.ticks = last)
    (hf : last.feeds[index]? = some f) (hcondition : condition f = false) :
    (waitForFeed index condition).run.run host = (.error .hang, last) := by
  have hstop : (last.feeds[index]?).all condition = false := by
    rw [hf, Option.all_some, hcondition]
  unfold waitForFeed
  rw [run_modify_bind, run_get_bind, hlast]
  simp only [hstop, Bool.not_false, if_true]
  rfl

private theorem run_stopFeed {index : Nat} {host : Host} {f : Feed} (hheld : host.held? index = .ok f) :
    (stopFeed index).run.run host =
      ((do
        waitForFeed index (·.hasEnded)
        return .ok ()) : Errand (Except MissingEnd Unit)).run.run (host.dropHandle index) := by
  unfold stopFeed
  -- The wait has to stay closed: an hour of it is unfolded otherwise.
  generalize waitForFeed index (·.hasEnded) = wait
  rw [run_get_bind, hheld]
  simp only
  rw [run_modify_bind]

/-- Stopping a feed that is stuck hangs, as long as its receiver is there. -/
theorem stopFeed_of_isStuck {h : Host} {index : Nat} {f : Feed} (hf : h.feeds[index]? = some f)
    (hreader : f.reader = .subscriber) (hreceiving : f.receiving = true) (hheld : f.held = true)
    (hsound : f.IsSound) (hstuck : f.isStuck = true) :
    ((stopFeed index).runOn h).1 = .error .hang := by
  have hheld? : h.held? index = .ok f := by
    unfold Host.held?
    rw [hf]
    exact if_pos hheld
  have hstopped : (h.dropHandle index).feeds[index]? = some f.stopped :=
    Host.feed_updateFeed hf Feed.stopped Feed.isIdle
  have hstays := Host.feed_advanceUntil_of_isStuck hstopped hreader hreceiving
    ⟨hsound.queue_le, hsound.fits⟩ hstuck
  have hnotEnded : f.stopped.hasEnded = false := by
    refine Bool.eq_false_iff.mpr fun hended => ?_
    have hnot : f.stopped.isStuck = false := Feed.not_isStuck_of_hasEnded hended
    have hyes : f.stopped.isStuck = true := hstuck
    rw [hyes] at hnot
    cases hnot
  generalize hlast : (h.dropHandle index).advanceUntil (fun k => (k.feeds[index]?).all (·.hasEnded))
    ((h.dropHandle index).ticks + patience) (h.dropHandle index).ticks = last
  have hf' := hstays (fun k => (k.feeds[index]?).all (·.hasEnded))
    ((h.dropHandle index).ticks + patience) (h.dropHandle index).ticks
  rw [hlast] at hf'
  have hwait := run_waitForFeed_of_hang hlast hf' hnotEnded
  have hrun : (stopFeed index).run.run h = (.error .hang, last) := by
    rw [run_stopFeed hheld?]
    exact run_bind_of_error hwait _
  unfold runOn
  rw [hrun]

end Errand

end Bureau
