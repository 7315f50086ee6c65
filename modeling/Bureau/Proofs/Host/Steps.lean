import Bureau.Proofs.Host.Calm
import Bureau.Proofs.Office.Lifetime

/-!
Hosts step by step. A step is a turn of the background, the passing of time, a call on the store or a
signal to the tasks; the way in which a host settles and lets time pass is a run of such steps. Every
turn leaves the jobs in line where they are and the work of the tasks on the agenda, and adds no work
of theirs to the line.
-/

set_option autoImplicit false

namespace Bureau

def Job.isOfFeed : Job → Bool
  | .feed _ | .read _ => true
  | .work .. | .heed _ => false

namespace Host

inductive Step where
  /-- The next job in line is done. -/
  | turn
  /-- Time goes by; what falls due meanwhile is late. -/
  | pass (ticks : Nat)
  /-- The store is called. -/
  | call (c : StoreCall)
  /-- The tasks are sent a signal. -/
  | signal (value : Bool)

def Step.isOwn : Step → Bool
  | .turn | .pass _ => true
  | .call _ | .signal _ => false

variable {h k l : Host} {f : Feed} {index task : Nat} {job : Job}

def turn (h : Host) : Host :=
  match h.ready with
  | [] => h
  | job :: rest => { h with ready := rest }.perform job

def step (h : Host) : Step → Host
  | .turn => h.turn
  | .pass ticks => h.reach (h.ticks + ticks)
  | .call c => { h with office := ((Office.ask c).runOn h.office).2 }
  | .signal value => h.send value

def after (h : Host) (steps : List Step) : Host := steps.foldl step h

theorem after_append (h : Host) (steps later : List Step) :
    h.after (steps ++ later) = (h.after steps).after later := List.foldl_append

theorem after_concat (h : Host) (steps : List Step) (s : Step) :
    h.after (steps ++ [s]) = (h.after steps).step s := h.after_append steps [s]

theorem turn_of_ready {rest : List Job} (hready : h.ready = job :: rest) :
    h.turn = { h with ready := rest }.perform job := by
  unfold turn
  rw [hready]

/-! ### What a job leaves -/

/-- A host after a job: what was in line is still there, and only feeds have got new places; the work of
the tasks is on the agenda as before. -/
structure Turned (h k : Host) : Prop where
  office : h.office.WorksTo k.office
  signal_eq : k.crew.signal = h.crew.signal
  line : ∃ more : List Job, k.ready = h.ready ++ more ∧ ∀ j ∈ more, j.isOfFeed = true
  alarms : ∀ task due tick, ⟨tick, .work task due⟩ ∈ h.agenda.alarms →
    ⟨tick, .work task due⟩ ∈ k.agenda.alarms

theorem Turned.nanos_eq (hk : h.Turned k) : k.nanos = h.nanos := by
  have hticks : k.ticks = h.ticks := congrArg Clock.ticks hk.office.clock_eq
  rw [nanos, nanos, hticks]

private theorem line_of_eq (hready : k.ready = h.ready) :
    ∃ more : List Job, k.ready = h.ready ++ more ∧ ∀ j ∈ more, j.isOfFeed = true :=
  ⟨[], by rw [hready, List.append_nil], List.forall_mem_nil _⟩

theorem Turned.of_eq (hoffice : k.office = h.office) (hsignal : k.crew.signal = h.crew.signal)
    (hready : k.ready = h.ready) (hagenda : k.agenda = h.agenda) : h.Turned k where
  office := hoffice ▸ .refl _
  signal_eq := hsignal
  line := line_of_eq hready
  alarms _ _ _ hin := hagenda ▸ hin

theorem Turned.refl (h : Host) : h.Turned h := .of_eq rfl rfl rfl rfl

theorem Turned.trans (hk : h.Turned k) (kl : k.Turned l) : h.Turned l where
  office := hk.office.trans kl.office
  signal_eq := kl.signal_eq.trans hk.signal_eq
  line := by
    obtain ⟨more, hmore, hfeeds⟩ := hk.line
    obtain ⟨more', hmore', hfeeds'⟩ := kl.line
    refine ⟨more ++ more', by rw [hmore', hmore, List.append_assoc], fun j hj => ?_⟩
    exact (List.mem_append.mp hj).elim (hfeeds j) (hfeeds' j)
  alarms task due tick hin := kl.alarms task due tick (hk.alarms task due tick hin)

private theorem turned_wake (h : Host) (hjob : job.isOfFeed = true) : h.Turned (h.wake job) := by
  unfold wake
  split
  · exact .refl h
  · exact ⟨.refl _, rfl, ⟨[job], rfl, fun j hj => List.mem_singleton.mp hj ▸ hjob⟩, fun _ _ _ hin => hin⟩

private theorem turned_schedule (h : Host) (task due : Nat) : h.Turned (h.schedule task due) :=
  ⟨.refl _, rfl, line_of_eq rfl, fun _ _ _ hin => List.mem_append_left _ hin⟩

private theorem turned_updateFeed (h : Host) (index : Nat) (g : Feed → Feed) (noticed : Feed → Bool) :
    h.Turned (h.updateFeed index g noticed) := by
  unfold updateFeed
  simp only
  split
  · have hchanged : h.Turned { h with feeds := h.feeds.modify index g } := .of_eq rfl rfl rfl rfl
    exact hchanged.trans (turned_wake _ rfl)
  · exact .of_eq rfl rfl rfl rfl

private theorem turned_purge (h : Host) (now : Instant) : h.Turned (h.mapStore (·.purge now)) :=
  ⟨⟨rfl, fun _ _ hlasts => hlasts.purge now⟩, rfl, line_of_eq rfl, fun _ _ _ hin => hin⟩

theorem turned_reap (h : Host) (task period due : Nat) : h.Turned (h.reap task period due) := by
  unfold reap
  split
  · exact (turned_purge h _).trans (turned_schedule _ _ _)
  · exact .of_eq rfl rfl rfl rfl

private theorem turned_report (h : Host) (task period due : Nat) :
    h.Turned (h.report task period due) := by
  unfold report
  split
  · have hnoted : ∀ journal, h.Turned { h with journal } := fun _ => .of_eq rfl rfl rfl rfl
    exact (hnoted _).trans (turned_schedule _ _ _)
  · exact .of_eq rfl rfl rfl rfl

theorem turned_readFeed (h : Host) (index : Nat) : h.Turned (h.readFeed index) := by
  unfold readFeed
  split
  · exact .refl h
  · next f hf =>
    have hread : ∀ feeds journal (gone : Bool), h.Turned { h with
        feeds, journal, crew := if gone then h.crew.finishAll (· == .read index) else h.crew } :=
      fun _ _ gone => by cases gone <;> exact .of_eq rfl rfl rfl rfl
    simp only
    split
    · exact (hread _ _ _).trans (turned_wake _ rfl)
    · exact hread _ _ _

theorem turned_runFeed (h : Host) (index : Nat) : h.Turned (h.runFeed index) := by
  obtain ⟨desk, office, feeds, crew, agenda, ready, journal⟩ := h
  unfold runFeed
  simp only
  split
  · exact .refl _
  · next f hf =>
    have hkept : ∀ task due tick, ⟨tick, .work task due⟩ ∈ agenda.alarms →
        ⟨tick, .work task due⟩ ∈ (agenda.without (· == .feed index)).alarms :=
      fun task due tick hin => List.mem_filter.mpr ⟨hin, rfl⟩
    have hrun : ∀ (next : Agenda Job), (∀ task due tick, ⟨tick, .work task due⟩ ∈ agenda.alarms →
        ⟨tick, .work task due⟩ ∈ next.alarms) → Turned ⟨desk, office, feeds, crew, agenda, ready, journal⟩
          ⟨desk, (f.settle desk office).2, feeds.set index (f.settle desk office).1, crew, next, ready,
            journal⟩ :=
      fun next hnext => ⟨f.worksTo_settle desk office, rfl, line_of_eq rfl, hnext⟩
    have hnext := fun tick => hrun ((agenda.without (· == .feed index)).add tick (.feed index))
      fun task due tick hin => List.mem_append_left _ (hkept task due tick hin)
    cases hwake : (f.settle desk office).1.wake? with
    | some tick =>
      simp only
      split
      · exact (hnext tick).trans (turned_wake _ rfl)
      · exact hnext tick
    | none =>
      simp only
      split
      · exact (hrun _ hkept).trans (turned_wake _ rfl)
      · exact hrun _ hkept

private theorem turned_work (h : Host) (task due : Nat) : h.Turned (h.work task due) := by
  unfold work
  split
  · exact h.turned_reap task _ due
  · exact h.turned_report task _ due
  · exact h.turned_readFeed _
  · exact .refl h

theorem turned_stopReading (h : Host) (index : Nat) : h.Turned (h.stopReading index) := by
  have hstop := h.turned_updateFeed index stopFeed Feed.isIdle
  unfold stopReading
  simp only
  split
  · exact hstop.trans (turned_wake _ rfl)
  · exact hstop

theorem turned_heed (h : Host) (task : Nat) : h.Turned (h.heed task) := by
  have hlook : h.Turned { h with crew := h.crew.look task } := .of_eq rfl rfl rfl rfl
  unfold heed
  split
  · exact .refl h
  · split
    · simp only
      split
      · split
        · exact hlook.trans (.of_eq rfl rfl rfl rfl)
        · exact hlook
      · exact hlook.trans (.of_eq rfl rfl rfl rfl)
      · exact hlook.trans (turned_stopReading _ _)
    · exact .refl h

theorem turned_perform (h : Host) (job : Job) : h.Turned (h.perform job) := by
  cases job with
  | work task due => exact h.turned_work task due
  | heed task => exact h.turned_heed task
  | feed index => exact h.turned_runFeed index
  | read index => exact h.turned_readFeed index

private theorem worksTo_turn (h : Host) : h.office.WorksTo h.turn.office := by
  unfold turn
  split
  · exact .refl _
  · next job rest hready => exact (turned_perform { h with ready := rest } job).office

@[simp] theorem clock_turn (h : Host) : h.turn.office.clock = h.office.clock := h.worksTo_turn.clock_eq

@[simp] theorem ticks_reach (h : Host) (tick : Nat) : (h.reach tick).ticks = tick := rfl

/-! ### What a step leaves -/

theorem turned_call (h : Host) (c : StoreCall) : h.Turned (h.step (.call c)) :=
  ⟨Office.worksTo_ask c h.office, rfl, line_of_eq rfl, fun _ _ _ hin => hin⟩

private theorem runsDown_turn (h : Host) : h.RunsDown h.turn := by
  unfold turn
  split
  · exact .refl h
  · exact isCourse_runsDown.trans (isCourse_runsDown.next h _) (isCourse_runsDown.perform _ _)

theorem runsDown_step (h : Host) (s : Step) : h.RunsDown (h.step s) := by
  cases s with
  | turn => exact h.runsDown_turn
  | pass ticks => exact isCourse_runsDown.reach h _
  | call c => exact .of_eq rfl rfl
  | signal value => exact runsDown_send h value

theorem runsDown_after (h : Host) (steps : List Step) : h.RunsDown (h.after steps) := by
  induction steps generalizing h with
  | nil => exact .refl h
  | cons s steps ih => exact (h.runsDown_step s).trans (ih (h.step s))

theorem nanos_le_step (h : Host) (s : Step) :
    h.office.clock.nanos ≤ (h.step s).office.clock.nanos := by
  cases s with
  | turn => exact (congrArg Clock.nanos h.clock_turn).ge
  | pass ticks =>
    have hticks : (h.office.clock.ticks : Int) * 1000000 ≤ (h.ticks + ticks : Nat) * 1000000 :=
      Int.mul_le_mul_of_nonneg_right (Int.ofNat_le.mpr (Nat.le_add_right _ _)) (by decide)
    exact Int.add_le_add_left hticks _
  | call c => exact (congrArg Clock.nanos (Office.worksTo_ask c h.office).clock_eq).ge
  | signal value => exact le_rfl

theorem nanos_le_after (h : Host) (steps : List Step) :
    h.office.clock.nanos ≤ (h.after steps).office.clock.nanos := by
  induction steps generalizing h with
  | nil => exact le_rfl
  | cons s steps ih => exact (h.nanos_le_step s).trans (ih (h.step s))

/-! ### What is left when a host has settled -/

/-- Turns for all jobs but those of feeds, by induction on the turns: the jobs of feeds that stand
after the others only make way for more of them. -/
private theorem isOfFeed_of_mem_performReady {turns : Nat} {front back : List Job}
    (hready : h.ready = front ++ back) (hback : ∀ j ∈ back, j.isOfFeed = true)
    (hturns : front.length ≤ turns) : ∀ j ∈ (performReady turns h).ready, j.isOfFeed = true := by
  induction turns generalizing h front back with
  | zero =>
    obtain rfl := List.eq_nil_of_length_eq_zero (Nat.le_zero.mp hturns)
    exact hready ▸ hback
  | succ turns ih =>
    unfold performReady
    cases hline : h.ready with
    | nil =>
      intro j hj
      rw [hline] at hj
      cases hj
    | cons job rest =>
      obtain ⟨more, hmore, hfeeds⟩ := (turned_perform { h with ready := rest } job).line
      have hall : job :: rest = front ++ back := hline.symm.trans hready
      have hlonger : ∀ jobs : List Job, (∀ j ∈ jobs, j.isOfFeed = true) →
          ∀ j ∈ jobs ++ more, j.isOfFeed = true := fun jobs hjobs j hj =>
        (List.mem_append.mp hj).elim (hjobs j) (hfeeds j)
      cases front with
      | nil =>
        rw [List.nil_append] at hall
        have hrest : ∀ j ∈ rest, j.isOfFeed = true := fun j hj =>
          hback j (hall ▸ List.mem_cons_of_mem job hj)
        have hnone : _ = [] ++ (rest ++ more) := hmore
        exact ih hnone (hlonger rest hrest) (Nat.zero_le turns)
      | cons first front =>
        have hrest : rest = front ++ back := (List.cons.inj hall).2
        refine ih (hmore.trans ?_) (hlonger back hback) (Nat.le_of_succ_le_succ hturns)
        rw [← List.append_assoc]
        exact congrArg (· ++ more) hrest

theorem le_turns (h : Host) : h.ready.length + 2 * h.feeds.length ≤ h.turns := by
  have hfold : ∀ (feeds : List Feed) (n : Nat), n + 2 * feeds.length ≤
      feeds.foldl (fun turns f => turns + 2 * f.backlog h.nanos + 2) n := by
    intro feeds
    induction feeds with
    | nil => exact fun n => le_rfl
    | cons f feeds ih =>
        intro n
        have hrest := ih (n + 2 * f.backlog h.nanos + 2)
        rw [List.length_cons, List.foldl_cons]
        omega
  exact hfold h.feeds h.ready.length

/-- A host that has settled has only jobs of feeds in line. -/
theorem isOfFeed_of_mem_settle : ∀ j ∈ h.settle.ready, j.isOfFeed = true :=
  isOfFeed_of_mem_performReady (List.append_nil _).symm (List.forall_mem_nil _)
    ((Nat.le_add_right _ _).trans h.le_turns)

/-! ### Runs of a host's own -/

private theorem performReady_eq_after (turns : Nat) (h : Host) :
    performReady turns h = h.after (List.replicate turns .turn) := by
  induction turns generalizing h with
  | zero => rfl
  | succ turns ih =>
    have hnext : h.after (List.replicate (turns + 1) .turn) =
        h.turn.after (List.replicate turns .turn) := rfl
    rw [hnext]
    unfold performReady turn
    cases hready : h.ready with
    | nil =>
      -- Nothing is left to do, so that further turns change nothing.
      rw [← ih h]
      cases turns with
      | zero => rfl
      | succ turns =>
        unfold performReady
        rw [hready]
    | cons job rest => exact ih _

theorem settle_eq_after (h : Host) : h.settle = h.after (List.replicate h.turns .turn) :=
  performReady_eq_after h.turns h

private theorem clock_after_turns (h : Host) (turns : Nat) :
    (h.after (List.replicate turns .turn)).office.clock = h.office.clock := by
  induction turns generalizing h with
  | zero => rfl
  | succ turns ih => exact (ih h.turn).trans h.clock_turn

@[simp] theorem clock_settle (h : Host) : h.settle.office.clock = h.office.clock := by
  rw [settle_eq_after, clock_after_turns]

theorem isOwn_of_mem_turns {turns : Nat} : ∀ s ∈ List.replicate turns Step.turn, s.isOwn = true :=
  fun _ hs => (List.mem_replicate.mp hs).2 ▸ rfl

private theorem step_pass_of_le {tick : Nat} (hle : h.ticks ≤ tick) :
    h.step (.pass (tick - h.ticks)) = h.reach tick := by
  unfold step
  simp only
  rw [Nat.add_sub_cancel' hle]

/-- To settle and then to reach a tick is a run of steps. -/
theorem exists_reach_settle {tick : Nat} (hle : h.ticks ≤ tick) :
    ∃ steps : List Step, (∀ s ∈ steps, s.isOwn = true) ∧ h.settle.reach tick = h.after steps := by
  have hticks : h.settle.ticks = h.ticks := congrArg Clock.ticks h.clock_settle
  refine ⟨List.replicate h.turns .turn ++ [.pass (tick - h.settle.ticks)], fun s hs => ?_, ?_⟩
  · rcases List.mem_append.mp hs with hs | hs
    · exact isOwn_of_mem_turns s hs
    · exact List.mem_singleton.mp hs ▸ rfl
  · rw [after_concat, ← settle_eq_after, step_pass_of_le (hticks.trans_le hle)]

/-- By induction on the ticks at which something falls due. -/
private theorem exists_advanceUntil {stop : Host → Bool} {target now : Nat} (hnow : h.ticks = now)
    (hle : now ≤ target) : ∃ steps : List Step, (∀ s ∈ steps, s.isOwn = true) ∧
      h.advanceUntil stop target now = h.after steps := by
  fun_induction Host.advanceUntil stop target now h with
  | case1 now h settled hstop =>
    exact ⟨_, isOwn_of_mem_turns, h.settle_eq_after⟩
  | case2 now h settled hgo tick hnext hbefore ih =>
    obtain ⟨first, hfirst, hreach⟩ :=
      exists_reach_settle (h := h) (hnow.trans_le hbefore.1.le)
    obtain ⟨rest, hrest, hlater⟩ := ih rfl hbefore.2.le
    refine ⟨first ++ rest, fun s hs => ?_, ?_⟩
    · exact (List.mem_append.mp hs).elim (hfirst s) (hrest s)
    · rw [hlater, after_append, ← hreach]
  | case3 now h settled hgo tick hnext hpast => exact exists_reach_settle (hnow.trans_le hle)
  | case4 now h settled hgo hnext => exact exists_reach_settle (hnow.trans_le hle)

theorem exists_advanceTo (h : Host) (target : Nat) : ∃ steps : List Step,
    (∀ s ∈ steps, s.isOwn = true) ∧ h.advanceTo target = h.after steps := by
  unfold advanceTo
  split
  · exact ⟨[], List.forall_mem_nil _, rfl⟩
  · next hlater => exact exists_advanceUntil rfl (Nat.not_le.mp hlater).le

end Host

end Bureau
