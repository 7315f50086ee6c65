import Bureau.Proofs.Host.Crew

/-!
Calm. As long as no signal is sent the tasks of a host have seen the last one, and the feeds that are
read have not been told to stop; the background leaves it so, and new tasks do.
-/

set_option autoImplicit false

namespace Bureau

namespace Crew

variable (c : Crew) (id j : Nat)

theorem isCalled_finish : (c.finish id).isCalled j = c.isCalled j := by
  unfold finish isCalled
  simp only [List.getElem?_modify]
  cases c.tasks[j]? with
  | none => rfl
  | some t => by_cases h : id = j <;> simp [h]

theorem isCalled_finishAll (kind : Duty → Bool) : (c.finishAll kind).isCalled j = c.isCalled j := by
  unfold finishAll isCalled
  simp only [List.getElem?_map]
  cases c.tasks[j]? with
  | none => rfl
  | some t => by_cases h : kind t.duty = true <;> simp [h]

theorem isCalled_look_of_ne (h : id ≠ j) : (c.look id).isCalled j = c.isCalled j := by
  unfold look isCalled
  simp only [List.getElem?_modify_ne _ _ h]

private theorem isCalled_hire (duty : Duty) :
    (c.hire duty).isCalled j = (c.isCalled j && !decide (j = c.size)) := by
  unfold hire isCalled size
  simp only
  rcases Nat.lt_trichotomy j c.tasks.length with hj | rfl | hj
  · rw [List.getElem?_append_left hj]
    simp [Nat.ne_of_lt hj]
  · simp
  · rw [List.getElem?_eq_none (by simp; omega), List.getElem?_eq_none (by omega)]
    rfl

theorem mem_running {d : Duty} (hid : c.duty? id = some d) : id ∈ c.running := by
  obtain ⟨t, ht, -⟩ := Option.bind_eq_some_iff.mp hid
  have hlt := (List.getElem?_eq_some_iff.mp ht).1
  exact List.mem_filter.mpr ⟨List.mem_range.mpr hlt, (c.isRunning_iff id).mpr ⟨d, hid⟩⟩

theorem isCalled_send {value : Bool} {d : Duty} (hid : c.duty? id = some d)
    (hseen : c.isCalled id = false) :
    (c.send value).isCalled id = true ∧ (c.send value).signal.value = value := by
  obtain ⟨t, ht, -⟩ := Option.bind_eq_some_iff.mp hid
  have hsame : t.seen = c.signal.sent := by
    unfold isCalled at hseen
    rw [ht] at hseen
    simpa using hseen
  unfold send
  rw [if_neg (List.ne_nil_of_mem (c.mem_running id hid))]
  refine ⟨?_, rfl⟩
  unfold isCalled
  rw [ht]
  simp [hsame]

end Crew

namespace Host

variable {h k : Host} {f g : Feed} {index : Nat}

/-- A host whose tasks have seen the last signal, and whose readers have not told their feeds to stop.
-/
structure IsCalm (h : Host) : Prop where
  uncalled : ∀ id d, h.crew.duty? id = some d → h.crew.isCalled id = false
  untold : ∀ (i : Nat) (f : Feed), h.feeds[i]? = some f → f.receiving = true → f.stopping = false
  reads : ∀ id i, h.crew.duty? id = some (.read i) →
    ∃ f, h.feeds[i]? = some f ∧ f.receiving = true

theorem IsCalm.of_eq (hcalm : h.IsCalm) (hcrew : k.crew = h.crew) (hfeeds : k.feeds = h.feeds) :
    k.IsCalm := by
  obtain ⟨huncalled, huntold, hreads⟩ := hcalm
  rw [← hcrew] at huncalled
  rw [← hfeeds] at huntold
  rw [← hcrew, ← hfeeds] at hreads
  exact ⟨huncalled, huntold, hreads⟩

theorem IsCalm.of_crew (hcalm : h.IsCalm) (hfeeds : k.feeds = h.feeds)
    (hduty : ∀ id d, k.crew.duty? id = some d → h.crew.duty? id = some d)
    (hcalled : ∀ id, k.crew.isCalled id = h.crew.isCalled id) : k.IsCalm where
  uncalled id d hd := (hcalled id).trans (hcalm.uncalled id d (hduty id d hd))
  untold i f hf := hcalm.untold i f (hfeeds ▸ hf)
  reads id i hd := hfeeds ▸ hcalm.reads id i (hduty id _ hd)

private theorem isCalm_finish (hcalm : h.IsCalm) (task : Nat) : (h.finish task).IsCalm :=
  hcalm.of_crew rfl (fun _ _ hd => Crew.duty?_of_finish hd) (h.crew.isCalled_finish task)

/-- A feed that is changed but not told to stop, and not given up as long as it has a reader. -/
theorem IsCalm.set (hcalm : h.IsCalm) (hf : h.feeds[index]? = some f) (hcrew : k.crew = h.crew)
    (hfeeds : k.feeds = h.feeds.set index g) (hstopping : g.stopping = f.stopping)
    (hreceiving : g.receiving = f.receiving ∨
      g.receiving = false ∧ ∀ id, h.crew.duty? id ≠ some (.read index)) : k.IsCalm := by
  refine ⟨hcrew ▸ hcalm.uncalled, fun i f' hf' hopen => ?_, fun id i hid => ?_⟩
  · obtain ⟨rfl, rfl⟩ | ⟨-, hf'⟩ := getElem?_set_cases hf (hfeeds ▸ hf')
    · rcases hreceiving with hsame | ⟨hgone, -⟩
      · exact hstopping.trans (hcalm.untold i f hf (hsame.symm.trans hopen))
      · rw [hgone] at hopen
        cases hopen
    · exact hcalm.untold i f' hf' hopen
  · rw [hcrew] at hid
    obtain ⟨f', hf', hopen⟩ := hcalm.reads id i hid
    rw [hfeeds]
    by_cases hi : index = i
    · subst hi
      rw [hf] at hf'
      cases hf'
      rcases hreceiving with hsame | ⟨-, hnone⟩
      · exact ⟨g, getElem?_set_self_of_some hf g, hsame.trans hopen⟩
      · exact absurd hid (hnone id)
    · exact ⟨f', (List.getElem?_set_ne hi).trans hf', hopen⟩

theorem duty?_finishAll_read (c : Crew) (index id : Nat) :
    (c.finishAll (· == .read index)).duty? id ≠ some (.read index) := by
  rw [Crew.duty?_finishAll]
  intro hid
  simpa using (Option.filter_eq_some_iff.mp hid).2

private theorem isCalm_readFeed (hcalm : h.IsCalm) (index : Nat) : (h.readFeed index).IsCalm := by
  cases hf : h.feeds[index]? with
  | none =>
      unfold readFeed
      rw [hf]
      exact hcalm
  | some f =>
      obtain ⟨-, hfeeds⟩ := readFeed_of_some hf
      have hstopping : (collect f).2.stopping = f.stopping := (collect_eq f).2.2
      obtain ⟨hstays, hcrew⟩ | ⟨hgone, -, hcrew⟩ := crew_readFeed hf
      · exact hcalm.set hf hcrew hfeeds hstopping (.inl hstays)
      · have hleft : ({ h with crew := h.crew.finishAll (· == .read index) } : Host).IsCalm :=
          hcalm.of_crew rfl (fun _ _ hd => Crew.duty?_of_finishAll hd) fun id =>
            h.crew.isCalled_finishAll id _
        exact hleft.set hf hcrew hfeeds hstopping
          (.inr ⟨hgone, duty?_finishAll_read h.crew index⟩)

private theorem isCalm_runFeed (hcalm : h.IsCalm) (index : Nat) : (h.runFeed index).IsCalm := by
  cases hf : h.feeds[index]? with
  | none =>
      rw [runFeed_of_none hf]
      exact hcalm
  | some f =>
      obtain ⟨-, hfeeds⟩ := runFeed_of_some hf
      have hfollows := f.follows_settle h.desk h.office
      exact hcalm.set hf (h.crew_runFeed index) hfeeds hfollows.stopping_eq
        (.inl hfollows.receiving_eq)

private theorem isCalm_work (hcalm : h.IsCalm) (task due : Nat) : (h.work task due).IsCalm := by
  unfold work
  split
  · unfold reap
    split
    · exact hcalm.of_eq rfl rfl
    · exact isCalm_finish hcalm task
  · unfold report
    split
    · exact hcalm.of_eq rfl rfl
    · exact isCalm_finish hcalm task
  · exact isCalm_readFeed hcalm _
  · exact hcalm

private theorem isCalm_heed (hcalm : h.IsCalm) (task : Nat) : (h.heed task).IsCalm := by
  unfold heed
  split
  · exact hcalm
  · next d hd =>
      rw [hcalm.uncalled task d hd]
      exact hcalm

theorem isCourse_isCalm : IsCourse fun h k => h.IsCalm → k.IsCalm where
  refl h hcalm := hcalm
  trans hk kl hcalm := kl (hk hcalm)
  next h rest hcalm := hcalm.of_eq rfl rfl
  perform h job hcalm := by
    cases job with
    | work task due => exact isCalm_work hcalm task due
    | heed task => exact isCalm_heed hcalm task
    | feed index => exact isCalm_runFeed hcalm index
    | read index => exact isCalm_readFeed hcalm index
  reach h tick hcalm := hcalm.of_eq rfl rfl

/-! ### New tasks -/

/-- A new task waits for the next signal, and its feed, if it reads one, is there. -/
theorem IsCalm.hire (hcalm : h.IsCalm) {duty : Duty} (hcrew : k.crew = h.crew.hire duty)
    (hold : ∀ (i : Nat) (f : Feed), h.feeds[i]? = some f → k.feeds[i]? = some f)
    (hnew : ∀ (i : Nat) (f : Feed), k.feeds[i]? = some f → h.feeds[i]? = some f ∨ f.stopping = false)
    (hread : ∀ i, duty = .read i → ∃ f, k.feeds[i]? = some f ∧ f.receiving = true) : k.IsCalm := by
  refine ⟨fun id d hd => ?_, fun i f hf hopen => ?_, fun id i hd => ?_⟩
  · rw [hcrew, Crew.duty?_hire] at hd
    rw [hcrew, Crew.isCalled_hire]
    split at hd
    · next hid => rw [hid, decide_eq_true rfl, Bool.not_true, Bool.and_false]
    · rw [hcalm.uncalled id d hd, Bool.false_and]
  · rcases hnew i f hf with hf | hstop
    · exact hcalm.untold i f hf hopen
    · exact hstop
  · rw [hcrew, Crew.duty?_hire] at hd
    split at hd
    · exact hread i (Option.some.inj hd)
    · obtain ⟨f, hf, hopen⟩ := hcalm.reads id i hd
      exact ⟨f, hold i f hf, hopen⟩

theorem isCalm_employ (hcalm : h.IsCalm) {duty : Duty} (hduty : ∀ i, duty ≠ .read i) :
    (h.employ duty).IsCalm :=
  hcalm.hire rfl (fun _ _ hf => hf) (fun _ _ hf => .inl hf) fun i hi => absurd hi (hduty i)

theorem IsSilent.isCalm (hsilent : h.IsSilent) : h.IsCalm where
  uncalled id d hd := by
    rw [hsilent.tasks] at hd
    cases hd
  untold i f hf hopen := by
    rw [(hsilent.feeds f (List.mem_of_getElem? hf)).2.1] at hopen
    cases hopen
  reads id i hd := by
    rw [hsilent.tasks] at hd
    cases hd

end Host

end Bureau
