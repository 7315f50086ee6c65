import Bureau.Host.Reaper
import Bureau.Host.Subscription
import Bureau.Proofs.Host.Feeds

/-!
The tasks of a host while time passes. None is started by the background itself, and the feeds for the
journal are manned: each has its reader until it has ended. When no task is left, nothing happens to the
host but that its clock goes on.
-/

set_option autoImplicit false

namespace Bureau

/-! ### Crews -/

namespace Crew

variable (c : Crew) (id : Nat)

theorem duty?_hire (duty : Duty) (j : Nat) :
    (c.hire duty).duty? j = if j = c.size then some duty else c.duty? j := by
  unfold hire duty? size
  simp only
  split
  · next h =>
      rw [h, List.getElem?_concat_length]
      rfl
  · next h =>
      rcases Nat.lt_or_ge j c.tasks.length with hj | hj
      · rw [List.getElem?_append_left hj]
      · rw [List.getElem?_eq_none hj, List.getElem?_eq_none]
        rw [List.length_append, List.length_singleton]
        omega

theorem duty?_finish (j : Nat) : (c.finish id).duty? j = if id = j then none else c.duty? j := by
  unfold finish duty?
  simp only [List.getElem?_modify]
  split <;> cases c.tasks[j]? <;> rfl

theorem duty?_finishAll (kind : Duty → Bool) (j : Nat) :
    (c.finishAll kind).duty? j = (c.duty? j).filter fun duty => !kind duty := by
  unfold finishAll duty?
  simp only [List.getElem?_map]
  cases c.tasks[j]? with
  | none => rfl
  | some t =>
      obtain ⟨duty, seen, running⟩ := t
      cases running <;> cases h : kind duty <;> simp [h, Option.filter]

variable {c id} in
theorem duty?_of_finish {j : Nat} {d : Duty} (hd : (c.finish id).duty? j = some d) :
    c.duty? j = some d := by
  rw [duty?_finish] at hd
  split at hd
  · cases hd
  · exact hd

variable {c} in
theorem duty?_of_finishAll {kind : Duty → Bool} {j : Nat} {d : Duty}
    (hd : (c.finishAll kind).duty? j = some d) : c.duty? j = some d := by
  rw [duty?_finishAll] at hd
  exact (Option.filter_eq_some_iff.mp hd).1

theorem duty?_look (j : Nat) : (c.look id).duty? j = c.duty? j := by
  unfold look duty?
  simp only [List.getElem?_modify]
  cases c.tasks[j]? with
  | none => rfl
  | some t => by_cases h : id = j <;> simp [h]

theorem duty?_send (value : Bool) (j : Nat) : (c.send value).duty? j = c.duty? j := by
  unfold send
  split <;> rfl

theorem isRunning_iff : c.isRunning id = true ↔ ∃ duty, c.duty? id = some duty := by
  rw [isRunning, Option.isSome_iff_exists]

end Crew

/-! ### Feeds with readers -/

/-- A feed for the journal that has ended unless there is a task that reads it. -/
structure Feed.IsManned (f : Feed) (c : Crew) (index : Nat) : Prop where
  reader : f.reader = .journal
  read : f.receiving = true → ∃ id, c.duty? id = some (.read index)
  ended : f.receiving = false → f.hasEnded = true

namespace Host

/-- All feeds are for the journal, and each has a reader until it has ended. -/
def IsManned (h : Host) : Prop :=
  ∀ (i : Nat) (f : Feed), h.feeds[i]? = some f → f.IsManned h.crew i

/-- A later host at which nothing has been started: its tasks were running with the same duties before,
no feed has come, and the feeds are manned if they were. -/
structure RunsDown (h k : Host) : Prop where
  duty : ∀ id d, k.crew.duty? id = some d → h.crew.duty? id = some d
  length_eq : k.feeds.length = h.feeds.length
  manned : h.IsManned → k.IsManned

variable {h k : Host} {f g : Feed} {index : Nat}

@[simp] theorem crew_wake (h : Host) (job : Job) : (h.wake job).crew = h.crew := by
  unfold wake
  split <;> rfl

@[simp] theorem crew_updateFeed (h : Host) (index : Nat) (g : Feed → Feed) (noticed : Feed → Bool) :
    (h.updateFeed index g noticed).crew = h.crew := by
  unfold updateFeed
  simp only
  split
  · exact crew_wake _ _
  · rfl

private theorem RunsDown.of_duty_eq (hduty : ∀ id, k.crew.duty? id = h.crew.duty? id)
    (hfeeds : k.feeds = h.feeds) : h.RunsDown k where
  duty id d hd := (hduty id).symm.trans hd
  length_eq := congrArg _ hfeeds
  manned hmanned i f hf := by
    obtain ⟨hreader, hread, hended⟩ := hmanned i f (hfeeds ▸ hf)
    refine ⟨hreader, fun hreceiving => ?_, hended⟩
    obtain ⟨id, hid⟩ := hread hreceiving
    exact ⟨id, (hduty id).trans hid⟩

theorem RunsDown.of_eq (hcrew : k.crew = h.crew) (hfeeds : k.feeds = h.feeds) : h.RunsDown k :=
  .of_duty_eq (fun id => congrArg (Crew.duty? · id) hcrew) hfeeds

theorem RunsDown.refl (h : Host) : h.RunsDown h := .of_eq rfl rfl

theorem RunsDown.trans {l : Host} (hk : h.RunsDown k) (kl : k.RunsDown l) : h.RunsDown l where
  duty id d hd := hk.duty id d (kl.duty id d hd)
  length_eq := kl.length_eq.trans hk.length_eq
  manned hmanned := kl.manned (hk.manned hmanned)

private theorem runsDown_finish {task : Nat} (hduty : ∀ i, h.crew.duty? task ≠ some (.read i)) :
    h.RunsDown (h.finish task) := by
  refine ⟨fun id d hd => Crew.duty?_of_finish hd, rfl, fun hmanned i f hf => ?_⟩
  obtain ⟨hreader, hread, hended⟩ := hmanned i f hf
  refine ⟨hreader, fun hreceiving => ?_, hended⟩
  obtain ⟨id, hid⟩ := hread hreceiving
  refine ⟨id, ?_⟩
  rw [finish, Crew.duty?_finish, if_neg, hid]
  rintro rfl
  exact hduty i hid

private theorem runsDown_look (h : Host) (task : Nat) :
    h.RunsDown { h with crew := h.crew.look task } :=
  .of_duty_eq (h.crew.duty?_look task) rfl

theorem runsDown_send (h : Host) (value : Bool) : h.RunsDown (h.send value) :=
  .of_duty_eq (h.crew.duty?_send value) rfl

theorem getElem?_set_self_of_some (hf : h.feeds[index]? = some f) (g : Feed) :
    (h.feeds.set index g)[index]? = some g :=
  List.getElem?_set_self (List.getElem?_eq_some_iff.mp hf).1

theorem getElem?_set_cases {i : Nat} {f' : Feed} (hf : h.feeds[index]? = some f)
    (hf' : (h.feeds.set index g)[i]? = some f') :
    i = index ∧ f' = g ∨ i ≠ index ∧ h.feeds[i]? = some f' := by
  by_cases hi : index = i
  · subst hi
    rw [getElem?_set_self_of_some hf] at hf'
    exact .inl ⟨rfl, (Option.some.inj hf').symm⟩
  · rw [List.getElem?_set_ne hi] at hf'
    exact .inr ⟨fun h => hi h.symm, hf'⟩

private theorem RunsDown.of_feed (hcrew : k.crew = h.crew) (hf : h.feeds[index]? = some f)
    (hfeeds : k.feeds = h.feeds.set index g) (hreader : g.reader = f.reader)
    (hreceiving : g.receiving = f.receiving) (hended : f.hasEnded = true → g.hasEnded = true) :
    h.RunsDown k := by
  refine ⟨fun id d hd => hcrew ▸ hd, ?_, fun hmanned i f' hf' => ?_⟩
  · rw [hfeeds, List.length_set]
  · rw [hfeeds] at hf'
    rw [hcrew]
    obtain ⟨rfl, rfl⟩ | ⟨-, hf'⟩ := getElem?_set_cases hf hf'
    · have hold := hmanned i f hf
      exact ⟨hreader.trans hold.reader, fun h => hold.read (hreceiving ▸ h),
        fun h => hended (hold.ended (hreceiving ▸ h))⟩
    · exact hmanned i f' hf'

theorem crew_runFeed (h : Host) (index : Nat) : (h.runFeed index).crew = h.crew := by
  obtain ⟨desk, office, feeds, crew, agenda, ready, journal⟩ := h
  unfold runFeed
  simp only
  split
  · rfl
  · split
    · exact crew_wake _ _
    · rfl

private theorem runsDown_runFeed (h : Host) (index : Nat) : h.RunsDown (h.runFeed index) := by
  cases hf : h.feeds[index]? with
  | none =>
      rw [runFeed_of_none hf]
      exact .refl h
  | some f =>
      obtain ⟨-, hfeeds⟩ := runFeed_of_some hf
      have hfollows := f.follows_settle h.desk h.office
      refine .of_feed (h.crew_runFeed index) hf hfeeds hfollows.reader_eq hfollows.receiving_eq
        fun hended => ?_
      rw [Feed.settle_of_hasEnded h.office hended]
      exact hended

theorem collect_eq (f : Feed) :
    (collect f).2.reader = f.reader ∧ (collect f).2.phase = f.phase ∧
      (collect f).2.stopping = f.stopping := by
  unfold collect
  split
  · exact ⟨rfl, rfl, rfl⟩
  · split
    · exact ⟨rfl, rfl, rfl⟩
    · split
      · split <;> exact ⟨rfl, rfl, rfl⟩
      · split <;> exact ⟨rfl, rfl, rfl⟩

theorem hasEnded_collect (f : Feed) : (collect f).2.hasEnded = f.hasEnded := by
  unfold Feed.hasEnded
  rw [(collect_eq f).2.1]

private theorem collect_receiving (f : Feed) :
    (collect f).2.receiving = f.receiving ∨
      f.receiving = true ∧ (collect f).2.receiving = false ∧ f.hasEnded = true := by
  cases hreader : f.reader with
  | subscriber =>
      unfold collect
      rw [hreader]
      exact .inl rfl
  | journal =>
      cases hreceiving : f.receiving with
      | false =>
          unfold collect
          rw [hreader, hreceiving]
          exact .inl hreceiving
      | true =>
          cases hended : f.hasEnded <;> cases hstopping : f.stopping <;>
            simp [collect, hreader, hreceiving, hended, hstopping]

theorem crew_readFeed (hf : h.feeds[index]? = some f) :
    (collect f).2.receiving = f.receiving ∧ (h.readFeed index).crew = h.crew ∨
      (collect f).2.receiving = false ∧ f.hasEnded = true ∧
        (h.readFeed index).crew = h.crew.finishAll (· == .read index) := by
  have hcrew : (h.readFeed index).crew =
      if f.receiving && !(collect f).2.receiving then h.crew.finishAll (· == .read index)
      else h.crew := by
    unfold readFeed
    rw [hf]
    simp only
    split
    · exact crew_wake _ _
    · rfl
  obtain hstays | ⟨hreceiving, hgone, hended⟩ := collect_receiving f
  · refine .inl ⟨hstays, ?_⟩
    rw [hcrew, hstays, Bool.and_not_self, if_neg Bool.false_ne_true]
  · refine .inr ⟨hgone, hended, ?_⟩
    rw [hcrew, hreceiving, hgone]
    exact if_pos rfl

/-- A reader that has given up its feed leaves the other feeds their readers. -/
theorem runsDown_readFeed (h : Host) (index : Nat) : h.RunsDown (h.readFeed index) := by
  cases hf : h.feeds[index]? with
  | none =>
      unfold readFeed
      rw [hf]
      exact .refl h
  | some f =>
      obtain ⟨-, hfeeds⟩ := readFeed_of_some hf
      have hreader : (collect f).2.reader = f.reader := (collect_eq f).1
      obtain ⟨hstays, hcrew⟩ | ⟨hgone, hended, hcrew⟩ := crew_readFeed hf
      · exact .of_feed hcrew hf hfeeds hreader hstays fun hended => (hasEnded_collect f).trans hended
      · refine ⟨fun id d hd => Crew.duty?_of_finishAll (hcrew ▸ hd), ?_, fun hmanned i f' hf' => ?_⟩
        · rw [hfeeds, List.length_set]
        · rw [hfeeds] at hf'
          obtain ⟨rfl, rfl⟩ | ⟨hi, hf'⟩ := getElem?_set_cases hf hf'
          · refine ⟨hreader.trans (hmanned i f hf).reader, fun hopen => ?_, fun _ => ?_⟩
            · rw [hgone] at hopen
              cases hopen
            · rw [hasEnded_collect, hended]
          · obtain ⟨hreader', hread, hended'⟩ := hmanned i f' hf'
            refine ⟨hreader', fun hopen => ?_, hended'⟩
            obtain ⟨id, hid⟩ := hread hopen
            refine ⟨id, ?_⟩
            rw [hcrew, Crew.duty?_finishAll, hid]
            have hne : Duty.read i ≠ .read index := fun h => hi (Duty.read.inj h)
            simp [Option.filter, hne]

private theorem runsDown_reap {task period due : Nat}
    (hduty : ∀ i, h.crew.duty? task ≠ some (.read i)) :
    h.RunsDown (h.reap task period due) := by
  unfold reap
  cases h.office.clock.read with
  | ok now => exact .of_eq rfl rfl
  | error c => exact runsDown_finish hduty

private theorem runsDown_report {task period due : Nat}
    (hduty : ∀ i, h.crew.duty? task ≠ some (.read i)) :
    h.RunsDown (h.report task period due) := by
  unfold report
  cases h.office.clock.read with
  | ok now => exact .of_eq rfl rfl
  | error c => exact runsDown_finish hduty

private theorem runsDown_work (h : Host) (task due : Nat) : h.RunsDown (h.work task due) := by
  unfold work
  split
  · next hduty => exact runsDown_reap fun i => by rw [hduty]; exact nofun
  · next hduty => exact runsDown_report fun i => by rw [hduty]; exact nofun
  · exact h.runsDown_readFeed _
  · exact .refl h

private theorem runsDown_stopReading (h : Host) (index : Nat) : h.RunsDown (h.stopReading index) := by
  have hstop : h.RunsDown (h.updateFeed index stopFeed Feed.isIdle) := by
    have hfeeds := h.feeds_updateFeed index stopFeed Feed.isIdle
    rw [List.modify_eq_set_getElem?] at hfeeds
    cases hf : h.feeds[index]? with
    | none =>
        rw [hf] at hfeeds
        exact .of_eq (crew_updateFeed _ _ _ _) hfeeds
    | some f =>
        rw [hf] at hfeeds
        refine .of_feed (g := stopFeed f) (crew_updateFeed _ _ _ _) hf hfeeds ?_ ?_ ?_
        all_goals
          unfold stopFeed
          split <;> simp [Feed.hasEnded]
  unfold stopReading
  simp only
  split
  · exact hstop.trans (.of_eq (crew_wake _ _) (feeds_wake _ _))
  · exact hstop

private theorem runsDown_heed (h : Host) (task : Nat) : h.RunsDown (h.heed task) := by
  have hlook := h.runsDown_look task
  unfold heed
  split
  · exact .refl h
  · next duty hduty =>
      have hsame : ∀ d, ({ h with crew := h.crew.look task } : Host).crew.duty? task = some d →
          d = duty := fun d hd => by
        rw [Crew.duty?_look, hduty] at hd
        exact (Option.some.inj hd).symm
      split
      · simp only
        split
        · have hreaper : ∀ i, ({ h with crew := h.crew.look task } : Host).crew.duty? task ≠
              some (.read i) := fun i hi => nomatch hsame _ hi
          split
          · exact hlook.trans (runsDown_finish hreaper)
          · exact hlook
        · exact hlook.trans (runsDown_finish fun i hi => nomatch hsame _ hi)
        · exact hlook.trans (runsDown_stopReading _ _)
      · exact .refl h

theorem isCourse_runsDown : IsCourse RunsDown where
  refl := .refl
  trans := .trans
  next h rest := .of_eq rfl rfl
  perform h job := by
    cases job with
    | work task due => exact h.runsDown_work task due
    | heed task => exact h.runsDown_heed task
    | feed index => exact h.runsDown_runFeed index
    | read index => exact h.runsDown_readFeed index
  reach h tick := .of_eq rfl rfl

/-! ### Silence -/

/-- Nothing goes on in the background: no task runs, and every feed has ended and has lost its reader.
-/
structure IsSilent (h : Host) : Prop where
  tasks : ∀ id, h.crew.duty? id = none
  feeds : ∀ f ∈ h.feeds, f.reader = .journal ∧ f.receiving = false ∧ f.hasEnded = true

/-- A later host to which nothing has happened but that time went by. -/
structure Idles (h k : Host) : Prop where
  feeds_eq : k.feeds = h.feeds
  crew_eq : k.crew = h.crew
  journal_eq : k.journal = h.journal
  office_eq : k.office = h.office.setTicks k.ticks

theorem Idles.refl (h : Host) : h.Idles h := ⟨rfl, rfl, rfl, rfl⟩

theorem Idles.trans {l : Host} (hk : h.Idles k) (kl : k.Idles l) : h.Idles l where
  feeds_eq := kl.feeds_eq.trans hk.feeds_eq
  crew_eq := kl.crew_eq.trans hk.crew_eq
  journal_eq := kl.journal_eq.trans hk.journal_eq
  office_eq := by rw [kl.office_eq, hk.office_eq]; rfl

theorem IsSilent.of_idles (h₀ : h.IsSilent) (hk : h.Idles k) : k.IsSilent :=
  ⟨fun id => hk.crew_eq ▸ h₀.tasks id, fun f hf => h₀.feeds f (hk.feeds_eq ▸ hf)⟩

theorem Idles.wake (hk : h.Idles k) (job : Job) : h.Idles (k.wake job) := by
  unfold Host.wake
  split
  · exact hk
  · exact hk.trans ⟨rfl, rfl, rfl, rfl⟩

theorem set_of_getElem? {α : Type} {l : List α} {i : Nat} {a : α} (h : l[i]? = some a) :
    l.set i a = l := by
  obtain ⟨hi, rfl⟩ := List.getElem?_eq_some_iff.mp h
  exact List.set_getElem_self hi

private theorem IsSilent.idles_runFeed (hsilent : h.IsSilent) (index : Nat) :
    h.Idles (h.runFeed index) := by
  cases hf : h.feeds[index]? with
  | none =>
      rw [runFeed_of_none hf]
      exact .refl h
  | some f =>
      have hended := (hsilent.feeds f (List.mem_of_getElem? hf)).2.2
      obtain ⟨desk, office, feeds, crew, agenda, ready, journal⟩ := h
      have hset : feeds.set index f = feeds := set_of_getElem? hf
      unfold runFeed
      simp only
      rw [hf]
      simp only [Feed.settle_eq_of_hasEnded office hended, hset]
      split
      · apply Idles.wake
        exact ⟨rfl, rfl, rfl, rfl⟩
      · exact ⟨rfl, rfl, rfl, rfl⟩

private theorem IsSilent.idles_readFeed (hsilent : h.IsSilent) (index : Nat) :
    h.Idles (h.readFeed index) := by
  unfold readFeed
  split
  · exact .refl h
  · next f hf =>
      obtain ⟨hreader, hreceiving, hended⟩ := hsilent.feeds f (List.mem_of_getElem? hf)
      have hcollect : collect f = ([], f) := by
        unfold collect
        rw [hreader, hreceiving]
        rfl
      have hsame : h.Idles { h with feeds := h.feeds.set index f } :=
        ⟨set_of_getElem? hf, rfl, rfl, rfl⟩
      simp only [hcollect, hreceiving, Bool.false_and, Bool.false_eq_true, if_false,
        List.reverse_nil, List.nil_append]
      split
      · exact hsame.wake _
      · exact hsame

theorem isCourse_idles : IsCourse fun h k => h.IsSilent → h.Idles k where
  refl h _ := .refl h
  trans hk kl hsilent := (hk hsilent).trans (kl (hsilent.of_idles (hk hsilent)))
  next h rest _ := ⟨rfl, rfl, rfl, rfl⟩
  perform h job hsilent := by
    cases job with
    | work task due =>
        change h.Idles (h.work task due)
        rw [work, hsilent.tasks]
        exact .refl h
    | heed task =>
        change h.Idles (h.heed task)
        rw [heed, hsilent.tasks]
        exact .refl h
    | feed index => exact hsilent.idles_runFeed index
    | read index => exact hsilent.idles_readFeed index
  reach h tick _ := ⟨rfl, rfl, rfl, rfl⟩

theorem IsManned.isSilent (hmanned : h.IsManned) (htasks : ∀ id, h.crew.duty? id = none) :
    h.IsSilent := by
  refine ⟨htasks, fun f hf => ?_⟩
  obtain ⟨i, hi⟩ := List.mem_iff_getElem?.mp hf
  obtain ⟨hreader, hread, hended⟩ := hmanned i f hi
  cases hreceiving : f.receiving with
  | false => exact ⟨hreader, rfl, hended hreceiving⟩
  | true =>
      obtain ⟨id, hid⟩ := hread hreceiving
      rw [htasks] at hid
      cases hid

end Host

end Bureau
