import Bureau.Proofs.Host.Steps

/-!
How the tasks of a host come to their end. A task that has been called has the signal in its line of
jobs, and a feed that has been told to stop the job that ends it or tells its reader; so while a task
runs there is something left to do for it. Each turn takes something off a charge that the host can
bear, so that nothing runs in the end.
-/

set_option autoImplicit false

namespace Bureau

/-- A feed with nothing to do but to end: it waits for a beat still to come, or it has ended. -/
def Feed.RestsAt (now : Nat) (f : Feed) : Prop :=
  (∃ due, f.phase = .idle due ∧ now < due) ∨ f.hasEnded = true

namespace Host

variable {h k : Host} {f g : Feed} {index task now : Nat} {job : Job} {jobs jobs' : List Job}

/-! ### Ending -/

/-- The job that a feed needs next once it has been told to stop: its own, in which it ends, and then
that of its reader. -/
def closingJob (f : Feed) (index : Nat) : Job := if f.hasEnded then .read index else .feed index

/-- A feed that comes to its end, by the jobs in line: no batch of its is due, it has a turn only to
end, and once it has been told to stop the job that it needs is there. -/
structure Closes (now : Nat) (jobs : List Job) (index : Nat) (f : Feed) : Prop where
  reader : f.reader = .journal
  rests : f.RestsAt now
  turn : .feed index ∈ jobs → f.stopping = true ∨ f.hasEnded = true
  due : f.receiving = true → f.stopping = true → closingJob f index ∈ jobs

/-- A host on which every task comes to its end, by the jobs in line. A task that runs has been called
and has still to look at the signal, or it is the reader of a feed that has been told to stop. -/
structure IsEnding (jobs : List Job) (h : Host) : Prop where
  value : ∀ id d, h.crew.duty? id = some d → h.crew.signal.value = true
  told : ∀ id d, h.crew.duty? id = some d →
    .heed id ∈ jobs ∧ h.crew.isCalled id = true ∨
      ∃ i f, d = .read i ∧ h.feeds[i]? = some f ∧ f.stopping = true
  reads : ∀ id i, h.crew.duty? id = some (.read i) →
    ∃ f, h.feeds[i]? = some f ∧ f.receiving = true
  closes : ∀ (i : Nat) (f : Feed), h.feeds[i]? = some f → Closes h.nanos jobs i f

/-- Whether neither a task that looks at the signal nor another feed waits for a job. -/
def isOf (index : Nat) : Job → Bool
  | .work .. => true
  | .heed _ => false
  | .feed i | .read i => decide (i = index)

private theorem isOf_closingJob (f : Feed) (index i : Nat) :
    isOf index (closingJob f i) = decide (i = index) := by
  unfold closingJob
  split <;> rfl

private theorem closingJob_ne_work (f : Feed) (i task due : Nat) :
    Job.work task due ≠ closingJob f i := by
  unfold closingJob
  split <;> exact nofun

private theorem closingJob_ne_heed (f : Feed) (i task : Nat) : Job.heed task ≠ closingJob f i := by
  unfold closingJob
  split <;> exact nofun

theorem Closes.congr {i : Nat} (hf : Closes now jobs i f) (hi : i ≠ index)
    (hjobs : ∀ j, isOf index j = false → (j ∈ jobs ↔ j ∈ jobs')) : Closes now jobs' i f where
  reader := hf.reader
  rests := hf.rests
  turn hin := hf.turn ((hjobs (.feed i) (decide_eq_false hi)).mpr hin)
  due hopen hstop := by
    have hother : isOf index (closingJob f i) = false :=
      (isOf_closingJob f index i).trans (decide_eq_false hi)
    exact (hjobs _ hother).mp (hf.due hopen hstop)

namespace IsEnding

theorem of_crew (hend : h.IsEnding jobs) (hnow : k.nanos = h.nanos) (hfeeds : k.feeds = h.feeds)
    (hsignal : k.crew.signal = h.crew.signal)
    (hduty : ∀ id d, k.crew.duty? id = some d → h.crew.duty? id = some d)
    (hcalled : ∀ id d, k.crew.duty? id = some d → k.crew.isCalled id = h.crew.isCalled id ∨
      ∃ i f, d = .read i ∧ h.feeds[i]? = some f ∧ f.stopping = true) : k.IsEnding jobs where
  value id d hd := hsignal ▸ hend.value id d (hduty id d hd)
  told id d hd := by
    rw [hfeeds]
    rcases hcalled id d hd with hsame | htold
    · rw [hsame]
      exact hend.told id d (hduty id d hd)
    · exact .inr htold
  reads id i hd := hfeeds ▸ hend.reads id i (hduty id _ hd)
  closes i f hf := by
    rw [hnow]
    exact hend.closes i f (hfeeds ▸ hf)

theorem set (hend : h.IsEnding jobs) (hf : h.feeds[index]? = some f) (hnow : k.nanos = h.nanos)
    (hcrew : k.crew = h.crew) (hfeeds : k.feeds = h.feeds.set index g)
    (hg : Closes h.nanos jobs' index g)
    (hkeeps : f.stopping = true → g.stopping = true)
    (hreceiving : g.receiving = f.receiving ∨
      g.receiving = false ∧ ∀ id, h.crew.duty? id ≠ some (.read index))
    (hjobs : ∀ j, isOf index j = false → (j ∈ jobs ↔ j ∈ jobs')) : k.IsEnding jobs' := by
  have hself : k.feeds[index]? = some g := by
    rw [hfeeds]
    exact getElem?_set_self_of_some hf g
  have hother : ∀ i, i ≠ index → k.feeds[i]? = h.feeds[i]? := fun i hi => by
    rw [hfeeds, List.getElem?_set_ne fun h => hi h.symm]
  refine ⟨hcrew ▸ hend.value, fun id d hd => ?_, fun id i hd => ?_, fun i f' hf' => ?_⟩
  · rw [hcrew] at hd ⊢
    rcases hend.told id d hd with ⟨hin, hcalled⟩ | ⟨i, f', rfl, hf', hstop⟩
    · exact .inl ⟨(hjobs (.heed id) rfl).mp hin, hcalled⟩
    · by_cases hi : i = index
      · subst hi
        rw [hf] at hf'
        cases hf'
        exact .inr ⟨i, g, rfl, hself, hkeeps hstop⟩
      · exact .inr ⟨i, f', rfl, (hother i hi).trans hf', hstop⟩
  · rw [hcrew] at hd
    obtain ⟨f', hf', hopen⟩ := hend.reads id i hd
    by_cases hi : i = index
    · subst hi
      rw [hf] at hf'
      cases hf'
      rcases hreceiving with hsame | ⟨-, hnone⟩
      · exact ⟨g, hself, hsame.trans hopen⟩
      · exact absurd hd (hnone id)
    · exact ⟨f', (hother i hi).trans hf', hopen⟩
  · rw [hnow]
    obtain ⟨rfl, rfl⟩ | ⟨hi, hf'⟩ := getElem?_set_cases hf (hfeeds ▸ hf')
    · exact hg
    · exact (hend.closes i f' hf').congr hi hjobs

theorem drop (hend : h.IsEnding (job :: jobs))
    (hheed : ∀ id d, h.crew.duty? id = some d → job = .heed id →
      ∃ i f, d = .read i ∧ h.feeds[i]? = some f ∧ f.stopping = true)
    (hdue : ∀ (i : Nat) (f : Feed), h.feeds[i]? = some f → f.receiving = true →
      f.stopping = true → job ≠ closingJob f i) : h.IsEnding jobs where
  value := hend.value
  told id d hd := by
    rcases hend.told id d hd with ⟨hin, hcalled⟩ | htold
    · rcases List.mem_cons.mp hin with hjob | hin
      · exact .inr (hheed id d hd hjob.symm)
      · exact .inl ⟨hin, hcalled⟩
    · exact .inr htold
  reads := hend.reads
  closes i f hf := by
    obtain ⟨hreader, hrests, hturn, hnext⟩ := hend.closes i f hf
    refine ⟨hreader, hrests, fun hin => hturn (List.mem_cons_of_mem _ hin), fun hopen hstop => ?_⟩
    exact (List.mem_cons.mp (hnext hopen hstop)).resolve_left (Ne.symm (hdue i f hf hopen hstop))

theorem finish (hend : h.IsEnding jobs) (task : Nat) : (h.finish task).IsEnding jobs :=
  hend.of_crew rfl rfl rfl (fun _ _ hd => Crew.duty?_of_finish hd) fun id _ _ =>
    .inl (h.crew.isCalled_finish task id)

private theorem duty?_eq_none (hend : h.IsEnding []) (id : Nat) : h.crew.duty? id = none := by
  refine Option.eq_none_iff_forall_ne_some.mpr fun d hd => ?_
  rcases hend.told id d hd with ⟨hin, -⟩ | ⟨i, f, rfl, hf, hstop⟩
  · cases hin
  · obtain ⟨f', hf', hopen⟩ := hend.reads id i hd
    rw [hf] at hf'
    cases hf'
    exact nomatch (hend.closes i f hf).due hopen hstop

end IsEnding

/-! ### Jobs at the end -/

theorem ready_wake (h : Host) (job : Job) :
    (h.wake job).ready = if job ∈ h.ready then h.ready else h.ready ++ [job] := by
  unfold wake
  split <;> rfl

private theorem mem_ready_wake {j : Job} : j ∈ (h.wake job).ready ↔ j = job ∨ j ∈ h.ready := by
  rw [ready_wake]
  split
  · next hin =>
      refine ⟨.inr, fun hj => ?_⟩
      rcases hj with rfl | hj
      · exact hin
      · exact hj
  · rw [List.mem_append, List.mem_singleton]
    exact Or.comm

private theorem ready_updateFeed (hf : h.feeds[index]? = some f) (change : Feed → Feed)
    (noticed : Feed → Bool) :
    (h.updateFeed index change noticed).ready =
      if noticed (change f) then (h.wake (.feed index)).ready else h.ready := by
  have hchanged : (h.feeds.modify index change)[index]? = some (change f) := by
    rw [List.getElem?_modify_eq, hf]
    rfl
  unfold updateFeed
  simp only [hchanged, Option.any_some]
  split
  · rw [ready_wake, ready_wake]
  · rfl

theorem ready_readFeed (hf : h.feeds[index]? = some f) (hrests : f.RestsAt now) :
    (h.readFeed index).ready = h.ready := by
  have hblocked : (collect f).2.isBlocked = false := by
    unfold Feed.isBlocked
    rw [(collect_eq f).2.1]
    obtain ⟨due, hphase, -⟩ | hended := hrests
    · rw [hphase]
    · rw [Feed.hasEnded_iff.mp hended]
  unfold readFeed
  rw [hf]
  simp only [hblocked, Bool.false_eq_true, if_false]

private theorem settle_of_closing (d : Desk) (o : Office) (hrests : f.RestsAt (Timer.nanosAt o.ticks))
    (hclosing : f.stopping = true ∨ f.hasEnded = true) : f.settle d o = (f.finish, o) := by
  cases hended : f.hasEnded with
  | true =>
      rw [Feed.settle_eq_of_hasEnded o hended, Feed.finish, ← Feed.hasEnded_iff.mp hended]
  | false =>
      obtain ⟨due, hphase, hahead⟩ := hrests.resolve_right (Bool.eq_false_iff.mp hended)
      have hstop := hclosing.resolve_right (Bool.eq_false_iff.mp hended)
      have hresume : f.resume o.ticks o = (f, o) := by
        unfold Feed.resume
        rw [hphase]
      have hidle : (f.resume o.ticks o).1.phase = .idle due := by rw [hresume, hphase]
      rw [Feed.settle_of_idle d hidle, hresume]
      exact Feed.tick_of_end d (Feed.isClosing_of_stopping hstop) fun hbatch =>
        Nat.not_le.mpr hahead hbatch.1

private theorem runFeed_of_closing (hf : h.feeds[index]? = some f) (hreader : f.reader = .journal)
    (hrests : f.RestsAt h.nanos) (hclosing : f.stopping = true ∨ f.hasEnded = true) :
    (h.runFeed index).feeds = h.feeds.set index f.finish ∧
      (h.runFeed index).ready = (h.wake (.read index)).ready := by
  have hsettle := settle_of_closing h.desk h.office hrests hclosing
  obtain ⟨-, hfeeds⟩ := runFeed_of_some hf
  rw [hsettle] at hfeeds
  refine ⟨hfeeds, ?_⟩
  have hdue : isJournalDue f.finish = true := by
    unfold isJournalDue Feed.finish Feed.hasEnded
    rw [hreader]
    rfl
  obtain ⟨desk, office, feeds, crew, agenda, ready, journal⟩ := h
  unfold runFeed
  simp only at hf hsettle ⊢
  rw [hf]
  simp only [hsettle, hdue, if_true]
  rw [ready_wake, ready_wake]

private theorem stopReading_of_some (hf : h.feeds[index]? = some f) (hreader : f.reader = .journal)
    (hrests : f.RestsAt now) :
    (h.stopReading index).feeds = h.feeds.set index { f with stopping := true } ∧
      (h.stopReading index).ready = (h.wake (closingJob f index)).ready := by
  have hstop : stopFeed f = { f with stopping := true } := by
    unfold stopFeed
    rw [hreader]
  have hfeeds : (h.updateFeed index stopFeed Feed.isIdle).feeds =
      h.feeds.set index { f with stopping := true } := by
    rw [feeds_updateFeed, List.modify_eq_set_getElem?, hf, ← hstop]
    rfl
  have hready := ready_updateFeed hf stopFeed Feed.isIdle
  have hget := feed_updateFeed hf stopFeed Feed.isIdle
  rw [hstop] at hready hget
  unfold stopReading closingJob
  simp only [hget, Option.any_some]
  cases hended : f.hasEnded with
  | true =>
      have hidle : f.isIdle = false := by
        rw [Feed.isIdle, Feed.hasEnded_iff.mp hended]
      rw [if_neg (by exact Bool.eq_false_iff.mp hidle)] at hready
      rw [if_pos (by exact hended), if_pos rfl]
      refine ⟨(feeds_wake _ _).trans hfeeds, ?_⟩
      rw [ready_wake, ready_wake, hready]
  | false =>
      obtain ⟨due, hphase, -⟩ := hrests.resolve_right (Bool.eq_false_iff.mp hended)
      have hidle : f.isIdle = true := Feed.isIdle_iff.mpr ⟨due, hphase⟩
      rw [if_pos (by exact hidle)] at hready
      rw [if_neg (by exact Bool.eq_false_iff.mp hended), if_neg Bool.false_ne_true]
      exact ⟨hfeeds, hready⟩

/-! ### The charge of what is left -/

def isTurn (count : Nat) : Job → Bool
  | .feed i => decide (i < count)
  | _ => false

/-- What is left to do: the jobs in line, one more job after the turn of a feed, and two for each feed
that has not been told to stop. -/
def charge (jobs : List Job) (told : List Bool) : Nat :=
  jobs.length + jobs.countP (isTurn told.length) + 2 * told.count false

def told (h : Host) : List Bool := h.feeds.map (·.stopping)

private theorem charge_lt_cons (job : Job) (jobs : List Job) (told : List Bool) :
    charge jobs told < charge (job :: jobs) told := by
  unfold charge
  rw [List.length_cons, List.countP_cons]
  omega

private theorem charge_feed_cons {told : List Bool} (hindex : index < told.length) (jobs : List Job) :
    charge (.feed index :: jobs) told = charge jobs told + 2 := by
  have hturn : isTurn told.length (.feed index) = true := decide_eq_true hindex
  unfold charge
  rw [List.length_cons, List.countP_cons, hturn, if_pos rfl]
  omega

private theorem charge_wake_le (h : Host) (job : Job) (told : List Bool) :
    charge (h.wake job).ready told ≤
      charge h.ready told + if isTurn told.length job then 2 else 1 := by
  rw [ready_wake]
  split
  · omega
  · unfold charge
    rw [List.length_append, List.countP_append, List.length_singleton, List.countP_singleton]
    split <;> omega

private theorem charge_set {told : List Bool} (hindex : told[index]? = some false) (jobs : List Job) :
    charge jobs (told.set index true) + 2 = charge jobs told := by
  obtain ⟨hlt, hget⟩ := List.getElem?_eq_some_iff.mp hindex
  have hpos : 0 < told.count false := List.count_pos_iff.mpr (hget ▸ List.getElem_mem hlt)
  unfold charge
  rw [List.length_set, List.count_set hlt, hget]
  rw [if_pos (beq_self_eq_true false), if_neg (show ¬(true == false) = true by decide)]
  omega

private theorem told_set (hf : h.feeds[index]? = some f) (hfeeds : k.feeds = h.feeds.set index g)
    (hstopping : g.stopping = f.stopping) : k.told = h.told := by
  unfold told
  rw [hfeeds, List.map_set, hstopping]
  exact set_of_getElem? (by rw [List.getElem?_map, hf]; rfl)

/-- What a job leaves behind on a host where the tasks come to their end: the others still do, and
there is less to do. -/
structure Eases (jobs : List Job) (h k : Host) : Prop where
  ending : k.IsEnding k.ready
  charge_lt : charge k.ready k.told < charge jobs h.told

theorem Eases.of_eq (hend : h.IsEnding h.ready) (hnow : k.nanos = h.nanos) (hcrew : k.crew = h.crew)
    (hfeeds : k.feeds = h.feeds) (hready : k.ready = h.ready) (job : Job) :
    Eases (job :: h.ready) h k := by
  refine ⟨?_, ?_⟩
  · rw [hready]
    exact hend.of_crew hnow hfeeds (congrArg _ hcrew) (fun id d hd => hcrew ▸ hd) fun id d _ =>
      .inl (congrArg (Crew.isCalled · id) hcrew)
  · unfold told
    rw [hready, hfeeds]
    exact charge_lt_cons job h.ready _

theorem Eases.finish (hend : h.IsEnding h.ready) (job : Job) (task : Nat) :
    Eases (job :: h.ready) h (h.finish task) :=
  ⟨hend.finish task, charge_lt_cons job h.ready h.told⟩

private theorem receiving_collect_of_stopping (hreader : f.reader = .journal)
    (hstop : f.stopping = true) (hended : f.hasEnded = true) : (collect f).2.receiving = false := by
  cases hreceiving : f.receiving <;> simp [collect, hreader, hreceiving, hstop, hended]

theorem restsAt_collect (hrests : f.RestsAt now) : (collect f).2.RestsAt now := by
  unfold Feed.RestsAt
  rw [(collect_eq f).2.1, hasEnded_collect]
  exact hrests

private theorem closes_collect (hclose : Closes now (job :: jobs) index f) (hjob : job ≠ .feed index)
    (hreceiving : (collect f).2.receiving = f.receiving ∨ (collect f).2.receiving = false) :
    Closes now jobs index (collect f).2 := by
  obtain ⟨hreader, hrests, hturn, hdue⟩ := hclose
  obtain ⟨hreader', -, hstopping⟩ := collect_eq f
  refine ⟨hreader'.trans hreader, restsAt_collect hrests, fun hin => ?_, fun hopen hstop => ?_⟩
  · rw [hstopping, hasEnded_collect]
    exact hturn (List.mem_cons_of_mem _ hin)
  · rw [hstopping] at hstop
    have hlater : f.hasEnded = false := Bool.eq_false_iff.mpr fun hended => by
      rw [receiving_collect_of_stopping hreader hstop hended] at hopen
      cases hopen
    have hnext : closingJob f index ∈ job :: jobs := by
      rcases hreceiving with hsame | hgone
      · exact hdue (hsame.symm.trans hopen) hstop
      · rw [hgone] at hopen
        cases hopen
    unfold closingJob at hnext ⊢
    rw [hasEnded_collect]
    rw [hlater, if_neg Bool.false_ne_true] at hnext ⊢
    exact (List.mem_cons.mp hnext).resolve_left hjob.symm

private theorem eases_readFeed (hend : h.IsEnding (job :: h.ready)) (hof : isOf index job = true)
    (hjob : job ≠ .feed index) (hnone : h.feeds[index]? = none → h.IsEnding h.ready) :
    Eases (job :: h.ready) h (h.readFeed index) := by
  cases hf : h.feeds[index]? with
  | none =>
      have hsame : h.readFeed index = h := by
        unfold readFeed
        rw [hf]
      rw [hsame]
      exact .of_eq (hnone hf) rfl rfl rfl rfl job
  | some f =>
      have hclose := hend.closes index f hf
      obtain ⟨-, hfeeds⟩ := readFeed_of_some hf
      have hnow := (h.turned_readFeed index).nanos_eq
      have hready := ready_readFeed hf hclose.rests
      have hstopping : (collect f).2.stopping = f.stopping := (collect_eq f).2.2
      have hjobs : ∀ j, isOf index j = false → (j ∈ job :: h.ready ↔ j ∈ h.ready) := by
        intro j hj
        rw [List.mem_cons, or_iff_right]
        rintro rfl
        rw [hof] at hj
        cases hj
      refine ⟨?_, ?_⟩
      · rw [hready]
        obtain ⟨hstays, hcrew⟩ | ⟨hgone, -, hcrew⟩ := crew_readFeed hf
        · exact hend.set hf hnow hcrew hfeeds (closes_collect hclose hjob (.inl hstays))
            (fun hstop => hstopping.trans hstop) (.inl hstays) hjobs
        · have hleft : ({ h with crew := h.crew.finishAll (· == .read index) } : Host).IsEnding
              (job :: h.ready) :=
            hend.of_crew rfl rfl rfl (fun _ _ hd => Crew.duty?_of_finishAll hd) fun id _ _ =>
              .inl (h.crew.isCalled_finishAll id _)
          exact hleft.set hf hnow hcrew hfeeds (closes_collect hclose hjob (.inr hgone))
            (fun hstop => hstopping.trans hstop)
            (.inr ⟨hgone, duty?_finishAll_read h.crew index⟩) hjobs
      · rw [hready, told_set hf hfeeds hstopping]
        exact charge_lt_cons job h.ready h.told

private theorem eases_work {due : Nat} (hend : h.IsEnding (.work task due :: h.ready)) :
    Eases (.work task due :: h.ready) h (h.work task due) := by
  have hdrop : h.IsEnding h.ready :=
    hend.drop (fun _ _ _ => nofun) fun i f _ _ _ => closingJob_ne_work f i task due
  unfold work
  split
  · unfold reap
    split
    · refine .of_eq hdrop ?_ ?_ ?_ ?_ _ <;> rfl
    · exact .finish hdrop _ task
  · unfold report
    split
    · refine .of_eq hdrop ?_ ?_ ?_ ?_ _ <;> rfl
    · exact .finish hdrop _ task
  · exact eases_readFeed hend rfl nofun fun _ => hdrop
  · exact .of_eq hdrop rfl rfl rfl rfl _

private theorem eases_read (hend : h.IsEnding (.read index :: h.ready)) :
    Eases (.read index :: h.ready) h (h.readFeed index) := by
  refine eases_readFeed hend (decide_eq_true rfl) nofun fun hnone => ?_
  refine hend.drop (fun _ _ _ => nofun) fun i f hf _ _ hjob => ?_
  unfold closingJob at hjob
  split at hjob
  · rw [← Job.read.inj hjob, hnone] at hf
    cases hf
  · cases hjob

/-- The turn of a feed that has been told to stop is its last, and its reader comes next. -/
theorem eases_feed (hend : h.IsEnding (.feed index :: h.ready)) :
    Eases (.feed index :: h.ready) h (h.runFeed index) := by
  cases hf : h.feeds[index]? with
  | none =>
      rw [runFeed_of_none hf]
      refine .of_eq (hend.drop (fun _ _ _ => nofun) fun i f hf' _ _ hjob => ?_) rfl rfl rfl rfl _
      unfold closingJob at hjob
      split at hjob
      · cases hjob
      · rw [← Job.feed.inj hjob, hf] at hf'
        cases hf'
  | some f =>
      obtain ⟨hreader, hrests, hturn, -⟩ := hend.closes index f hf
      have hnow := (h.turned_runFeed index).nanos_eq
      obtain ⟨hfeeds, hready⟩ := runFeed_of_closing hf hreader hrests (hturn List.mem_cons_self)
      refine ⟨?_, ?_⟩
      · rw [hready]
        have hended : Closes h.nanos (h.wake (.read index)).ready index f.finish :=
          ⟨hreader, .inr rfl, fun _ => .inr rfl, fun _ _ => mem_ready_wake.mpr (.inl rfl)⟩
        refine hend.set hf hnow (h.crew_runFeed index) hfeeds hended (fun hstop => hstop) (.inl rfl)
          fun j hj => ?_
        rw [List.mem_cons, mem_ready_wake, or_iff_right, or_iff_right]
        · rintro rfl
          exact of_decide_eq_false hj rfl
        · rintro rfl
          exact of_decide_eq_false hj rfl
      · have hindex : index < h.told.length := by
          rw [told, List.length_map]
          exact (List.getElem?_eq_some_iff.mp hf).1
        have hwake : charge (h.wake (.read index)).ready h.told ≤ charge h.ready h.told + 1 :=
          charge_wake_le h (.read index) h.told
        rw [hready, told_set hf hfeeds rfl, charge_feed_cons hindex]
        omega

@[simp] theorem crew_stopReading (h : Host) (index : Nat) : (h.stopReading index).crew = h.crew := by
  unfold stopReading
  simp only
  split
  · rw [crew_wake, crew_updateFeed]
  · rw [crew_updateFeed]

theorem IsEnding.look {ready : List Job} (hend : h.IsEnding (.heed task :: ready))
    (hnow : k.nanos = h.nanos) (hfeeds : k.feeds = h.feeds) (hsignal : k.crew.signal = h.crew.signal)
    (hduty : ∀ id d, k.crew.duty? id = some d → h.crew.duty? id = some d)
    (hother : ∀ id, task ≠ id → k.crew.isCalled id = h.crew.isCalled id)
    (htask : ∀ d, k.crew.duty? task = some d →
      ∃ i f, d = .read i ∧ h.feeds[i]? = some f ∧ f.stopping = true) : k.IsEnding ready := by
  have hlook : k.IsEnding (.heed task :: ready) := by
    refine hend.of_crew hnow hfeeds hsignal hduty fun id d hd => ?_
    by_cases hid : task = id
    · subst hid
      exact .inr (htask d hd)
    · exact .inl (hother id hid)
  refine hlook.drop (fun id d hd hjob => ?_) fun i f _ _ _ => closingJob_ne_heed f i task
  obtain rfl := Job.heed.inj hjob
  rw [hfeeds]
  exact htask d hd

private theorem eases_finish (hend : h.IsEnding (.heed task :: h.ready)) :
    Eases (.heed task :: h.ready) h (({ h with crew := h.crew.look task } : Host).finish task) := by
  refine ⟨?_, charge_lt_cons (.heed task) h.ready h.told⟩
  refine hend.look rfl rfl rfl (fun id d hd => ?_) (fun id hid => ?_) fun d hd => ?_
  · exact (h.crew.duty?_look task id).symm.trans (Crew.duty?_of_finish hd)
  · exact (Crew.isCalled_finish _ task id).trans (h.crew.isCalled_look_of_ne task id hid)
  · have hgone := (h.crew.look task).duty?_finish task task
    rw [if_pos rfl] at hgone
    cases hgone.symm.trans hd

section Reader

variable {l : Host} (hend : h.IsEnding (.heed task :: h.ready))
  (hduty : h.crew.duty? task = some (.read index)) (hfeeds : l.feeds = h.feeds)
  (hready : l.ready = h.ready)

include hend hduty hfeeds hready

/-- A reader that is told to stop passes it on to its feed: first the feed is told, and then the reader
has looked. -/
theorem isEnding_stopReading (hnow : l.nanos = h.nanos) (hcrew : l.crew = h.crew.look task) :
    (l.stopReading index).IsEnding (l.stopReading index).ready := by
  obtain ⟨f, hf, -⟩ := hend.reads task index hduty
  obtain ⟨hreader, hrests, -, -⟩ := hend.closes index f hf
  obtain ⟨hfeeds', hready'⟩ := stopReading_of_some (hfeeds ▸ hf) hreader hrests
  rw [hfeeds] at hfeeds'
  rw [ready_wake, hready, ← ready_wake] at hready'
  have hcrew' : (l.stopReading index).crew = h.crew.look task := (crew_stopReading l index).trans hcrew
  have hclose : Closes h.nanos (.heed task :: (l.stopReading index).ready) index
      { f with stopping := true } := by
    refine ⟨hreader, hrests, fun _ => .inl rfl, fun _ _ => List.mem_cons_of_mem _ ?_⟩
    rw [hready']
    exact mem_ready_wake.mpr (.inl rfl)
  have htold : ({ h with feeds := h.feeds.set index { f with stopping := true } } : Host).IsEnding
      (.heed task :: (l.stopReading index).ready) := by
    refine hend.set hf rfl rfl rfl hclose (fun _ => rfl) (.inl rfl) fun j hj => ?_
    rw [List.mem_cons, List.mem_cons, hready', mem_ready_wake]
    refine or_congr_right (or_iff_right ?_).symm
    rintro rfl
    rw [isOf_closingJob] at hj
    exact of_decide_eq_false hj rfl
  have hnow' := (l.turned_stopReading index).nanos_eq.trans hnow
  refine htold.look hnow' hfeeds' (by rw [hcrew']; rfl) (fun id d hd => ?_) (fun id hid => ?_)
    fun d hd => ?_
  · rwa [hcrew', Crew.duty?_look] at hd
  · rw [hcrew']
    exact h.crew.isCalled_look_of_ne task id hid
  · rw [hcrew', Crew.duty?_look, hduty] at hd
    cases hd
    exact ⟨index, _, rfl, getElem?_set_self_of_some hf _, rfl⟩

/-- The job that the feed needs is paid for by its having been told, or it is in line already. -/
theorem charge_stopReading_lt :
    charge (l.stopReading index).ready (l.stopReading index).told <
      charge (.heed task :: h.ready) h.told := by
  obtain ⟨f, hf, hopen⟩ := hend.reads task index hduty
  obtain ⟨hreader, hrests, -, hdue⟩ := hend.closes index f hf
  obtain ⟨hfeeds', hready'⟩ := stopReading_of_some (hfeeds ▸ hf) hreader hrests
  rw [ready_wake, hready, ← ready_wake] at hready'
  have htold : (l.stopReading index).told = h.told.set index true := by
    unfold told
    rw [hfeeds', hfeeds, List.map_set]
  have hindex : h.told[index]? = some f.stopping := by
    rw [told, List.getElem?_map, hf]
    rfl
  have hcons := charge_lt_cons (.heed task) h.ready h.told
  rw [hready', htold]
  cases hstop : f.stopping with
  | true =>
      have hin := (List.mem_cons.mp (hdue hopen hstop)).resolve_left
        (closingJob_ne_heed f index task).symm
      rw [hstop] at hindex
      rw [ready_wake, if_pos hin, set_of_getElem? hindex]
      exact hcons
  | false =>
      rw [hstop] at hindex
      have hset := charge_set hindex (h.wake (closingJob f index)).ready
      have hwake := charge_wake_le h (closingJob f index) h.told
      have hweight : (if isTurn h.told.length (closingJob f index) then 2 else 1) ≤ 2 := by
        split <;> omega
      omega

end Reader

private theorem eases_heed (hend : h.IsEnding (.heed task :: h.ready)) :
    Eases (.heed task :: h.ready) h (h.heed task) := by
  unfold heed
  split
  · next hduty =>
      refine .of_eq (hend.drop (fun id d hd hjob => ?_) fun i f _ _ _ => closingJob_ne_heed f i task)
        rfl rfl rfl rfl _
      rw [← Job.heed.inj hjob, hduty] at hd
      cases hd
  · next duty hduty =>
      split
      · next hcalled =>
          simp only
          split
          · have hvalue : (h.crew.look task).signal.value = true := hend.value task _ hduty
            rw [if_pos hvalue]
            exact eases_finish hend
          · exact eases_finish hend
          · exact ⟨isEnding_stopReading hend hduty rfl rfl rfl rfl,
              charge_stopReading_lt hend hduty rfl rfl⟩
      · next hcalled =>
          refine .of_eq (hend.drop (fun id d hd hjob => ?_)
            fun i f _ _ _ => closingJob_ne_heed f i task) rfl rfl rfl rfl _
          obtain rfl := Job.heed.inj hjob
          exact (hend.told task d hd).resolve_left fun h => hcalled h.2

private theorem eases_perform (hend : h.IsEnding (job :: h.ready)) :
    Eases (job :: h.ready) h (h.perform job) := by
  cases job with
  | work task due => exact eases_work hend
  | heed task => exact eases_heed hend
  | feed index => exact eases_feed hend
  | read index => exact eases_read hend

/-! ### The last turns -/

/-- Turns that are enough for the charge leave nothing to do, by induction on the turns. -/
theorem IsEnding.performReady (hend : h.IsEnding h.ready) {turns : Nat}
    (hturns : charge h.ready h.told ≤ turns) :
    (performReady turns h).IsEnding (performReady turns h).ready ∧
      (Host.performReady turns h).ready = [] := by
  induction turns generalizing h with
  | zero =>
      have hready : h.ready = [] := by
        refine List.eq_nil_of_length_eq_zero ?_
        unfold charge at hturns
        omega
      exact ⟨hend, hready⟩
  | succ turns ih =>
      unfold Host.performReady
      cases hready : h.ready with
      | nil => exact ⟨hend, hready⟩
      | cons job rest =>
          have hhand : ({ h with ready := rest } : Host).IsEnding (job :: rest) := by
            rw [hready] at hend
            exact hend.of_crew rfl rfl rfl (fun id d hd => hd) fun id d _ => .inl rfl
          obtain ⟨hend', hless⟩ := eases_perform (h := { h with ready := rest }) hhand
          refine ih hend' ?_
          rw [hready] at hturns
          exact Nat.le_of_lt_succ (Nat.lt_of_lt_of_le hless hturns)

/-- A host with no batch due, and no turn of a feed in line. -/
structure IsAtRest (h : Host) : Prop where
  feeds : ∀ f ∈ h.feeds, f.RestsAt h.nanos
  ready : ∀ i, i < h.feeds.length → .feed i ∉ h.ready

theorem mem_ready_send {value : Bool} :
    job ∈ (h.send value).ready ↔ job ∈ h.ready ∨ ∃ id ∈ h.crew.running, job = .heed id := by
  unfold send
  rw [List.mem_append, List.mem_map]
  simp only [eq_comm]

private theorem isEnding_send (hmanned : h.IsManned) (hcalm : h.IsCalm) (hrest : h.IsAtRest) :
    (h.send true).IsEnding (h.send true).ready := by
  have hduty : ∀ id d, (h.send true).crew.duty? id = some d → h.crew.duty? id = some d :=
    fun id d hd => (h.crew.duty?_send true id).symm.trans hd
  have hcall : ∀ id d, (h.send true).crew.duty? id = some d →
      (h.send true).crew.isCalled id = true ∧ (h.send true).crew.signal.value = true :=
    fun id d hd => h.crew.isCalled_send id (hduty id d hd) (hcalm.uncalled id d (hduty id d hd))
  refine ⟨fun id d hd => (hcall id d hd).2, fun id d hd => ?_,
    fun id i hd => hcalm.reads id i (hduty id _ hd), fun i f hf => ?_⟩
  · have hrunning := h.crew.mem_running id (hduty id d hd)
    exact .inl ⟨mem_ready_send.mpr (.inr ⟨id, hrunning, rfl⟩), (hcall id d hd).1⟩
  · refine ⟨(hmanned i f hf).reader, hrest.feeds f (List.mem_of_getElem? hf), fun hin => ?_,
      fun hopen hstop => ?_⟩
    · rcases mem_ready_send.mp hin with hin | ⟨id, -, hjob⟩
      · exact absurd hin (hrest.ready i (List.getElem?_eq_some_iff.mp hf).1)
      · cases hjob
    · rw [hcalm.untold i f hf hopen] at hstop
      cases hstop

private theorem charge_send_le (hrest : h.IsAtRest) :
    charge (h.send true).ready (h.send true).told ≤ (h.send true).turns := by
  have hturns := (h.send true).le_turns
  have hnone : (h.send true).ready.countP (isTurn (h.send true).told.length) = 0 := by
    refine List.countP_eq_zero.mpr fun job hin hturn => ?_
    unfold isTurn at hturn
    split at hturn
    · next i =>
        have hlt : i < h.feeds.length := (of_decide_eq_true hturn).trans_eq (List.length_map ..)
        rcases mem_ready_send.mp hin with hin | ⟨id, -, hjob⟩
        · exact hrest.ready i hlt hin
        · cases hjob
    · cases hturn
  have hcount : (h.send true).told.count false ≤ (h.send true).feeds.length :=
    List.count_le_length.trans_eq (List.length_map ..)
  unfold charge
  omega

/-- A signal to stop brings every task of a calm host to its end, at once if the feeds are at rest. -/
theorem settle_send_of_isAtRest (hmanned : h.IsManned) (hcalm : h.IsCalm) (hrest : h.IsAtRest) :
    (∀ id, (h.send true).settle.crew.duty? id = none) ∧ (h.send true).settle.ready = [] := by
  obtain ⟨hend, hready⟩ := (isEnding_send hmanned hcalm hrest).performReady (charge_send_le hrest)
  rw [hready] at hend
  exact ⟨hend.duty?_eq_none, hready⟩

end Host

end Bureau
