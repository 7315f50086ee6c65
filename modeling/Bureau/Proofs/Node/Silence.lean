import Bureau.Node.Basic
import Bureau.Proofs.Attempt
import Bureau.Proofs.Host.Crew

/-!
Stopped nodes. A stop waits for the tasks whose handles the node keeps, and these are all that run; so
nothing is left in the background once it has returned, however often the node was started and stopped
before, and nothing happens until something is started again.
-/

set_option autoImplicit false

namespace Bureau

inductive NodeAct where
  | start
  | addFeed (pairs : List CurrencyPair) (interval : Option Duration) (batchFirst : Nat → Bool)
  | stop
  /-- Time goes by. -/
  | pass (ticks : Nat)
  /-- The background runs until it waits, at no time. -/
  | settle

def NodeAct.isQuiet : NodeAct → Bool
  | .start | .addFeed .. => false
  | .stop | .pass _ | .settle => true

/-- The host of a node that has told its tasks to stop, once it has waited for those that it knows of.
-/
def Node.waited (n : Node) : Host :=
  (n.host.send true).advanceUntil (Host.haveEnded n.handles) (n.host.ticks + Errand.patience)
    n.host.ticks

private theorem Errand.run_join (tasks : List Nat) (h : Host) :
    (Errand.join tasks).run.run h =
      let later := h.advanceUntil (Host.haveEnded tasks) (h.ticks + Errand.patience) h.ticks
      (if later.haveEnded tasks then .ok () else .error .hang, later) := by
  unfold join
  rw [run_modify_bind, run_get_bind]
  -- What is left does not depend on how the time passed.
  generalize h.advanceUntil (Host.haveEnded tasks) (h.ticks + patience) h.ticks = later
  simp only
  cases later.haveEnded tasks <;> rfl

namespace NodeErrand

theorem run_bind {α β : Type} (x : NodeErrand α) (g : α → NodeErrand β) (n : Node) :
    (x >>= g).run.run n =
      match x.run.run n with
      | (.ok a, next) => (g a).run.run next
      | (.error e, next) => (.error e, next) := by
  simp only [ExceptT.run_bind, StateT.run_bind]
  rcases StateT.run (ExceptT.run x) n with ⟨e | a, next⟩ <;> rfl

theorem run_get_bind {α : Type} (g : Node → NodeErrand α) (n : Node) :
    (get >>= g).run.run n = (g n).run.run n := rfl

theorem run_modify_bind {α : Type} (f : Node → Node) (g : Unit → NodeErrand α) (n : Node) :
    (modify f >>= g).run.run n = (g ()).run.run (f n) := rfl

private theorem run_onHost {α : Type} (errand : Errand α) (n : Node) :
    (onHost errand).run.run n =
      ((errand.run.run n.host).1, { n with host := (errand.run.run n.host).2 }) := by
  obtain ⟨settings, id, state, host, handles⟩ := n
  unfold onHost
  rfl

private theorem run_start (n : Node) :
    start.run.run n =
      match (Errand.serve n.host.desk.health.run).run.run n.host with
      | (.ok (.ok ()), host) => (.ok (.ok ()),
          { { n with host }.adopt (Node.addReporter (host.addReaper n.settings.reaperInterval)
              n.settings.statsInterval) with state := .running })
      | (.ok (.error e), host) => (.ok (.error e), { n with host })
      | (.error e, host) => (.error e, { n with host }) := by
  unfold start
  rw [run_get_bind, run_bind, run_onHost]
  rcases (Errand.serve n.host.desk.health.run).run.run n.host with ⟨halt | e | a, next⟩ <;> rfl

private theorem run_stop (n : Node) :
    stop.run.run n =
      if n.waited.haveEnded n.handles then
        (.ok (), { n with state := .stopped, host := n.waited, handles := [] })
      else (.error .hang, { n with state := .shuttingDown, host := n.waited, handles := [] }) := by
  have hjoin : (Errand.join n.handles).run.run (n.host.send true) =
      (if n.waited.haveEnded n.handles then .ok () else .error .hang, n.waited) :=
    Errand.run_join n.handles (n.host.send true)
  unfold stop
  rw [run_modify_bind, run_get_bind, run_modify_bind, run_bind, run_onHost]
  simp only [hjoin]
  cases n.waited.haveEnded n.handles <;> rfl

end NodeErrand

namespace Node

variable {n k : Node}

def act : NodeAct → NodeErrand Unit
  | .start => do
      let _ ← NodeErrand.start
  | .addFeed pairs interval batchFirst => NodeErrand.addFeed pairs interval batchFirst
  | .stop => NodeErrand.stop
  | .pass ticks => modify fun n => { n with host := n.host.advanceTo (n.host.ticks + ticks) }
  | .settle => modify fun n => { n with host := n.host.settle }

/-- The node after something has been done with it, if that has returned. -/
def after? (n : Node) (a : NodeAct) : Option Node :=
  match (act a).run.run n with
  | (.ok (), k) => some k
  | (.error _, _) => none

/-- The node after some acts, each done when the one before had returned. -/
def run? (n : Node) (acts : List NodeAct) : Option Node := acts.foldlM after? n

/-- The feeds of a node have their readers, and it keeps the handles of all tasks that run. -/
structure IsKept (n : Node) : Prop where
  manned : n.host.IsManned
  handled : ∀ id, n.host.crew.isRunning id = true → id ∈ n.handles

private theorem isRunning_of_runsDown {h l : Host} (hl : h.RunsDown l) {id : Nat}
    (hid : l.crew.isRunning id = true) : h.crew.isRunning id = true := by
  obtain ⟨duty, hduty⟩ := (l.crew.isRunning_iff id).mp hid
  exact (h.crew.isRunning_iff id).mpr ⟨duty, hl.duty id duty hduty⟩

private theorem IsKept.of_runsDown (hn : n.IsKept) (hdown : n.host.RunsDown k.host)
    (hhandles : k.handles = n.handles) : k.IsKept :=
  ⟨hdown.manned hn.manned, fun id hid => hhandles ▸ hn.handled id (isRunning_of_runsDown hdown hid)⟩

/-! ### New tasks -/

/-- A host with new tasks: each of the others was running before, and each feed is manned. -/
structure Starts (h l : Host) : Prop where
  running : ∀ id, l.crew.isRunning id = true →
    h.crew.isRunning id = true ∨ h.crew.size ≤ id ∧ id < l.crew.size
  size_le : h.crew.size ≤ l.crew.size
  manned : h.IsManned → l.IsManned

theorem Starts.refl (h : Host) : Starts h h := ⟨fun _ hid => .inl hid, le_rfl, fun hmanned => hmanned⟩

theorem Starts.trans {h l m : Host} (hl : Starts h l) (lm : Starts l m) : Starts h m where
  running id hid := by
    have hsize := hl.size_le
    have hsize' := lm.size_le
    rcases lm.running id hid with hl' | hnew
    · rcases hl.running id hl' with hold | hnew
      · exact .inl hold
      · exact .inr ⟨hnew.1, by omega⟩
    · exact .inr ⟨by omega, hnew.2⟩
  size_le := hl.size_le.trans lm.size_le
  manned hmanned := lm.manned (hl.manned hmanned)

private theorem isRunning_hire {c : Crew} {duty : Duty} {id : Nat}
    (hid : (c.hire duty).isRunning id = true) :
    c.isRunning id = true ∨ c.size ≤ id ∧ id < (c.hire duty).size := by
  have hsize : (c.hire duty).size = c.size + 1 := List.length_append
  unfold Crew.isRunning at hid ⊢
  rw [Crew.duty?_hire] at hid
  split at hid
  · exact .inr (by omega)
  · exact .inl hid

private theorem size_le_hire (c : Crew) (duty : Duty) : c.size ≤ (c.hire duty).size := by
  have hsize : (c.hire duty).size = c.size + 1 := List.length_append
  omega

private theorem duty?_hire_of_some {c : Crew} {duty d : Duty} {id : Nat} (hid : c.duty? id = some d) :
    (c.hire duty).duty? id = some d := by
  have hlt : id < c.size := by
    unfold Crew.duty? at hid
    obtain ⟨t, ht, -⟩ := Option.bind_eq_some_iff.mp hid
    exact (List.getElem?_eq_some_iff.mp ht).1
  rw [Crew.duty?_hire, if_neg (Nat.ne_of_lt hlt), hid]

private theorem isManned_hire {f : Feed} {c : Crew} {index : Nat} (hf : f.IsManned c index)
    (duty : Duty) :
    f.IsManned (c.hire duty) index := by
  refine ⟨hf.reader, fun hreceiving => ?_, hf.ended⟩
  obtain ⟨id, hid⟩ := hf.read hreceiving
  exact ⟨id, duty?_hire_of_some hid⟩

private theorem starts_employ (h : Host) (duty : Duty) : Starts h (h.employ duty) :=
  ⟨fun _ hid => isRunning_hire hid, size_le_hire _ _,
    fun hmanned i f hf => isManned_hire (hmanned i f hf) duty⟩

private theorem starts_addReporter (h : Host) (interval : Duration) :
    Starts h (addReporter h interval) := by
  unfold addReporter
  split
  · exact .refl h
  · exact starts_employ h _

theorem getElem?_concat_cases {α : Type} {l : List α} {a b : α} {i : Nat}
    (h : (l ++ [a])[i]? = some b) : l[i]? = some b ∨ i = l.length ∧ b = a := by
  rw [List.getElem?_append] at h
  split at h
  · exact .inl h
  · obtain ⟨hlt, hget⟩ := List.getElem?_eq_some_iff.mp h
    rw [List.length_singleton] at hlt
    rw [List.getElem_singleton] at hget
    exact .inr ⟨by omega, hget.symm⟩

section NewFeed

variable (h : Host) (pairs : List CurrencyPair) (interval : Option Duration) (batchFirst : Nat → Bool)

theorem crew_addFeed :
    (h.addFeed pairs interval .journal batchFirst).crew = h.crew.hire (.read h.feeds.length) := by
  unfold Host.addFeed
  simp

theorem feeds_addFeed :
    (h.addFeed pairs interval .journal batchFirst).feeds =
      h.feeds ++ [Feed.start pairs (h.feedInterval interval) .journal batchFirst h.ticks] := by
  unfold Host.addFeed
  simp

private theorem starts_addFeed : Starts h (h.addFeed pairs interval .journal batchFirst) := by
  have hcrew := crew_addFeed h pairs interval batchFirst
  refine ⟨fun id hid => ?_, ?_, fun hmanned i f hf => ?_⟩
  · rw [hcrew] at hid ⊢
    exact isRunning_hire hid
  · rw [hcrew]
    exact size_le_hire _ _
  · rw [feeds_addFeed] at hf
    rw [hcrew]
    obtain hf | ⟨rfl, rfl⟩ := getElem?_concat_cases hf
    · exact isManned_hire (hmanned i f hf) _
    · obtain ⟨-, hreader, hreceiving, -⟩ :=
        Feed.start_eq pairs (h.feedInterval interval) .journal batchFirst h.ticks
      refine ⟨hreader, fun _ => ⟨h.crew.size, ?_⟩, fun hgone => ?_⟩
      · rw [Crew.duty?_hire, if_pos rfl]
      · rw [hreceiving] at hgone
        cases hgone

end NewFeed

theorem IsKept.adopt (hn : n.IsKept) {l : Host} (hl : Starts n.host l) : (n.adopt l).IsKept := by
  refine ⟨hl.manned hn.manned, fun id hid => ?_⟩
  refine List.mem_append.mpr ?_
  rcases hl.running id hid with hold | ⟨hge, hlt⟩
  · exact .inl (hn.handled id hold)
  · exact .inr (List.mem_range'_1.mpr ⟨hge, by omega⟩)

/-! ### Acts -/

theorem after?_stop (n : Node) :
    n.after? .stop =
      if n.waited.haveEnded n.handles then
        some { n with state := .stopped, host := n.waited, handles := [] }
      else none := by
  unfold after? act
  simp only [NodeErrand.run_stop]
  cases n.waited.haveEnded n.handles <;> rfl

/-- What a start makes of a node: things take their course while the store is asked, and then the tasks
are added, unless the store does not answer. -/
theorem after?_start {R : Host → Host → Prop} (hR : Host.IsCourse R)
    (hoffice : ∀ (h : Host) o, R h { h with office := o }) (hk : n.after? .start = some k) :
    ∃ h, R n.host h ∧ (k = { n with host := h } ∨
      k = { { n with host := h }.adopt (addReporter (h.addReaper n.settings.reaperInterval)
        n.settings.statsInterval) with state := .running }) := by
  have hserve := Errand.keeps_serve hR hoffice n.host.desk.health.run n.host
  unfold after? act at hk
  simp only [NodeErrand.run_bind, NodeErrand.run_start] at hk
  rcases hrun : (Errand.serve n.host.desk.health.run).run.run n.host with ⟨halt | e | a, next⟩ <;>
    rw [hrun] at hk hserve
  · cases hk
  · exact ⟨next, hserve, .inl (Option.some.inj hk).symm⟩
  · exact ⟨next, hserve, .inr (Option.some.inj hk).symm⟩

theorem runsDown_waited (n : Node) : n.host.RunsDown n.waited :=
  (n.host.runsDown_send true).trans (Host.isCourse_runsDown.advanceUntil _ _ _ _)

/-- Only tasks whose handles the node keeps run, so all have ended once these have. -/
theorem IsKept.tasks_of_haveEnded (hn : n.IsKept) {h : Host} (hdown : n.host.RunsDown h)
    (hended : h.haveEnded n.handles = true) (id : Nat) : h.crew.duty? id = none := by
  refine Option.eq_none_iff_forall_ne_some.mpr fun d hd => ?_
  have hrunning : h.crew.isRunning id = true := (h.crew.isRunning_iff id).mpr ⟨d, hd⟩
  have hhandled := hn.handled id (isRunning_of_runsDown hdown hrunning)
  have hgone := List.all_eq_true.mp hended id hhandled
  rw [hrunning] at hgone
  cases hgone

/-- A node that has been stopped: nothing goes on in its background. -/
structure IsSilent (n : Node) : Prop where
  state_eq : n.state = .stopped
  handles_eq : n.handles = []
  host : n.host.IsSilent

theorem IsKept.isSilent_of_stop (hn : n.IsKept) (hk : n.after? .stop = some k) : k.IsSilent := by
  have hdown := runsDown_waited n
  rw [after?_stop] at hk
  split at hk
  · next hended =>
      cases hk
      exact ⟨rfl, rfl, (hdown.manned hn.manned).isSilent (hn.tasks_of_haveEnded hdown hended)⟩
  · cases hk

private theorem IsSilent.isKept (hn : n.IsSilent) : n.IsKept where
  manned i f hf := by
    obtain ⟨hreader, hreceiving, hended⟩ := hn.host.feeds f (List.mem_of_getElem? hf)
    exact ⟨hreader, fun h => absurd (hreceiving.symm.trans h) Bool.false_ne_true, fun _ => hended⟩
  handled id hid := by
    obtain ⟨d, hd⟩ := (n.host.crew.isRunning_iff id).mp hid
    rw [hn.host.tasks] at hd
    cases hd

theorem IsKept.act (hn : n.IsKept) {a : NodeAct} (hk : n.after? a = some k) : k.IsKept := by
  cases a with
  | start =>
      obtain ⟨h, hdown, rfl | rfl⟩ :=
        after?_start Host.isCourse_runsDown (fun h o => .of_eq rfl rfl) hk
      · exact hn.of_runsDown hdown rfl
      · have hserved : ({ n with host := h } : Node).IsKept := hn.of_runsDown hdown rfl
        have hstarts : Starts h (addReporter (h.addReaper n.settings.reaperInterval)
            n.settings.statsInterval) :=
          (starts_employ h _).trans (starts_addReporter _ _)
        obtain ⟨hmanned, hhandled⟩ := hserved.adopt hstarts
        exact ⟨hmanned, hhandled⟩
  | addFeed pairs interval batchFirst =>
      cases hk
      exact hn.adopt (starts_addFeed n.host pairs interval batchFirst)
  | stop => exact (hn.isSilent_of_stop hk).isKept
  | pass ticks =>
      cases hk
      exact hn.of_runsDown (Host.isCourse_runsDown.advanceTo _ _) rfl
  | settle =>
      cases hk
      exact hn.of_runsDown (Host.isCourse_runsDown.settle _) rfl

/-- What every act keeps is kept by a run, by induction on the acts. -/
theorem of_run {P : Node → Prop} {acts : List NodeAct}
    (hact : ∀ a ∈ acts, ∀ n k, P n → n.after? a = some k → P k) (hn : P n)
    (hk : n.run? acts = some k) : P k := by
  induction acts generalizing n with
  | nil =>
      cases hk
      exact hn
  | cons a acts ih =>
      obtain ⟨l, hl, hk⟩ := Option.bind_eq_some_iff.mp hk
      exact ih (fun b hb => hact b (List.mem_cons_of_mem _ hb))
        (hact a List.mem_cons_self n l hn hl) hk

theorem host_of_make {settings : NodeSettings} {id : String}
    {readFile : String → Except String String} {clock : Clock} {entropy : UInt64}
    (hn : make settings id readFile clock entropy = .ok n) :
    ∃ desk office, n.host = .quiet desk office := by
  obtain ⟨table, -, hn⟩ := Attempt.exists_of_bind_eq_ok hn
  obtain ⟨market, -, hn⟩ := Attempt.exists_of_bind_eq_ok hn
  cases hn
  exact ⟨_, _, rfl⟩

theorem isKept_of_make {settings : NodeSettings} {id : String}
    {readFile : String → Except String String} {clock : Clock} {entropy : UInt64}
    (hn : make settings id readFile clock entropy = .ok n) : n.IsKept := by
  obtain ⟨desk, office, hquiet⟩ := host_of_make hn
  refine ⟨?_, ?_⟩ <;> rw [hquiet]
  · exact fun i f hf => nomatch hf
  · exact fun id hid => nomatch hid

/-! ### Silence -/

private theorem send_eq_self {h : Host} (hsilent : h.IsSilent) (value : Bool) : h.send value = h := by
  have hrunning : h.crew.running = [] := by
    refine List.filter_eq_nil_iff.mpr fun id _ => ?_
    rw [Crew.isRunning, hsilent.tasks]
    exact Bool.false_ne_true
  unfold Host.send Crew.send
  rw [if_pos hrunning, hrunning, List.map_nil, List.append_nil]

theorem IsSilent.of_idles (hn : n.IsSilent) {h : Host} (hh : n.host.Idles h) :
    ({ n with host := h } : Node).IsSilent :=
  ⟨hn.state_eq, hn.handles_eq, hn.host.of_idles hh⟩

/-- Nothing happens to a silent node unless something is started, and it can be stopped once more. -/
theorem IsSilent.act (hn : n.IsSilent) {a : NodeAct} (ha : a.isQuiet = true) :
    ∃ k, n.after? a = some k ∧ k.IsSilent ∧ n.host.Idles k.host := by
  cases a with
  | start => cases ha
  | addFeed pairs interval batchFirst => cases ha
  | stop =>
      have hended : n.waited.haveEnded n.handles = true := by
        rw [hn.handles_eq]
        rfl
      have hidles : n.host.Idles n.waited := by
        unfold waited
        rw [send_eq_self hn.host]
        exact Host.isCourse_idles.advanceUntil _ _ _ _ hn.host
      rw [after?_stop, if_pos hended]
      exact ⟨_, rfl, ⟨rfl, rfl, hn.host.of_idles hidles⟩, hidles⟩
  | pass ticks =>
      have hidles := Host.isCourse_idles.advanceTo n.host (n.host.ticks + ticks) hn.host
      exact ⟨_, rfl, hn.of_idles hidles, hidles⟩
  | settle =>
      have hidles := Host.isCourse_idles.settle n.host hn.host
      exact ⟨_, rfl, hn.of_idles hidles, hidles⟩

/-- By induction on the acts. -/
theorem IsSilent.run (hn : n.IsSilent) {acts : List NodeAct} (hacts : ∀ a ∈ acts, a.isQuiet = true) :
    ∃ k, n.run? acts = some k ∧ k.IsSilent ∧ n.host.Idles k.host := by
  induction acts generalizing n with
  | nil => exact ⟨n, rfl, hn, .refl _⟩
  | cons a acts ih =>
      obtain ⟨l, hl, hsilent, hnl⟩ := hn.act (hacts a (List.mem_cons_self ..))
      obtain ⟨k, hk, hsilent', hlk⟩ := ih hsilent fun b hb => hacts b (List.mem_cons_of_mem _ hb)
      exact ⟨k, Option.bind_eq_some_iff.mpr ⟨l, hl, hk⟩, hsilent', hnl.trans hlk⟩

theorem run?_append (n : Node) (acts later : List NodeAct) :
    n.run? (acts ++ later) = (n.run? acts).bind fun k => k.run? later := by
  unfold run?
  rw [List.foldlM_append]
  rfl

end Node

end Bureau
