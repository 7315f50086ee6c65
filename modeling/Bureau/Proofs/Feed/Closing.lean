import Bureau.Proofs.Feed.Stopping

/-!
What becomes of a subscription that is told to stop while its receiver goes on taking rates. The batch
in hand is handed out as room is made for it, the feed ends, and the receiver comes to the end of the
queue. Each phase leads to the next one by a move that a course without end makes sooner or later.
-/

set_option autoImplicit false

namespace Bureau

namespace Feed

/-- What happens to a subscription in the course of its life. -/
inductive Move where
  | act (a : Act)
  /-- The handle tells the feed to stop. -/
  | stop
  /-- The receiver leaves. -/
  | leave

namespace Move

/-- Whether the receiver asks for a rate or more. -/
def IsTaking : Move → Prop
  | .act (.take count) => 0 < count
  | _ => False

/-- Whether the feed has a turn at a tick or later. -/
def IsTurnFrom (tick : Nat) : Move → Prop
  | .act (.turn o) => tick ≤ o.ticks
  | _ => False

end Move

def move (d : Desk) (f : Feed) : Move → Feed
  | .act a => f.act d a
  | .stop => f.stopped
  | .leave => { f with receiving := false, queue := [] }

def moves (d : Desk) (course : List Move) (f : Feed) : Feed := course.foldl (move d) f

/-- A course without end in which the receiver stays and goes on taking, and in which the feed has
turns past every tick. -/
structure IsEager (course : Nat → Move) : Prop where
  stays : ∀ n, course n ≠ .leave
  turns : ∀ n tick, ∃ m, n ≤ m ∧ (course m).IsTurnFrom tick
  takes : ∀ n, ∃ m, n ≤ m ∧ (course m).IsTaking

/-- Every eager course comes to a feed that has ended and whose queue is empty. -/
def Closes (d : Desk) (f : Feed) : Prop :=
  ∀ course, IsEager course → ∃ n, (moves d ((List.range n).map course) f).isClosed = true

variable {d : Desk} {f : Feed}

/-! ### Courses -/

theorem IsEager.rest {course : Nat → Move} (h : IsEager course) :
    IsEager fun n => course (n + 1) where
  stays n := h.stays (n + 1)
  turns n tick := by
    obtain ⟨m, hm, hturn⟩ := h.turns (n + 1) tick
    obtain ⟨k, rfl⟩ := Nat.exists_eq_add_of_le' ((Nat.le_add_left 1 n).trans hm)
    exact ⟨k, Nat.le_of_succ_le_succ hm, hturn⟩
  takes n := by
    obtain ⟨m, hm, htake⟩ := h.takes (n + 1)
    obtain ⟨k, rfl⟩ := Nat.exists_eq_add_of_le' ((Nat.le_add_left 1 n).trans hm)
    exact ⟨k, Nat.le_of_succ_le_succ hm, htake⟩

private theorem moves_range_succ (course : Nat → Move) (n : Nat) :
    moves d ((List.range (n + 1)).map course) f =
      moves d ((List.range n).map fun k => course (k + 1)) (f.move d (course 0)) := by
  rw [List.range_succ_eq_map, List.map_cons, List.map_map]
  rfl

private theorem Closes.of_first {course : Nat → Move} (hcourse : IsEager course)
    (h : Closes d (f.move d (course 0))) :
    ∃ n, (moves d ((List.range n).map course) f).isClosed = true := by
  obtain ⟨n, hn⟩ := h _ hcourse.rest
  exact ⟨n + 1, by rwa [moves_range_succ]⟩

/-- Where every move either changes nothing that matters or leads on, and a move of the second kind is
sure to come, the feed closes: by induction on when it comes. -/
private theorem closes_of_helpful {Q : Feed → Prop} {helps : Move → Prop}
    (hcomes : ∀ course, IsEager course → ∃ n, helps (course n)) (hmove : ∀ g m, Q g → m ≠ .leave →
      (¬ helps m ∧ Q (g.move d m)) ∨ Closes d (g.move d m)) (hf : Q f) : Closes d f := by
  intro course hcourse
  obtain ⟨n, hn⟩ := hcomes course hcourse
  induction n generalizing f course with
  | zero =>
      rcases hmove f (course 0) hf (hcourse.stays 0) with ⟨hidles, -⟩ | hcloses
      · exact absurd hn hidles
      · exact hcloses.of_first hcourse
  | succ n ih =>
      rcases hmove f (course 0) hf (hcourse.stays 0) with ⟨-, hwaits⟩ | hcloses
      · obtain ⟨k, hk⟩ := ih hwaits _ hcourse.rest hn
        exact ⟨k + 1, by rwa [moves_range_succ]⟩
      · exact hcloses.of_first hcourse

private theorem exists_isTaking (course : Nat → Move) (hcourse : IsEager course) :
    ∃ n, (course n).IsTaking := by
  obtain ⟨n, -, hn⟩ := hcourse.takes 0
  exact ⟨n, hn⟩

private theorem exists_isTurnFrom (tick : Nat) (course : Nat → Move) (hcourse : IsEager course) :
    ∃ n, (course n).IsTurnFrom tick := by
  obtain ⟨n, -, hn⟩ := hcourse.turns 0 tick
  exact ⟨n, hn⟩

/-! ### Feeds that have been told to stop -/

/-- A sound feed that has been told to stop while its receiver is there. -/
structure IsStopped (f : Feed) : Prop where
  held : f.held = false
  stopping : f.stopping = true
  receiving : f.receiving = true
  isSound : f.IsSound

theorem isStopped_stopped (hf : f.IsSound) (hreceiving : f.receiving = true) :
    f.stopped.IsStopped := ⟨rfl, rfl, hreceiving, hf.queue_le, hf.fits⟩

private theorem IsStopped.stopped_eq (h : f.IsStopped) : f.stopped = f := by
  rw [stopped, ← h.held, ← h.stopping]

theorem IsStopped.move {m : Move} (h : f.IsStopped) (hm : m ≠ .leave) :
    (f.move d m).IsStopped := by
  cases m with
  | act a =>
      refine ⟨?_, ?_, (f.receiving_act d a).trans h.receiving, isSound_act d h.isSound a⟩
      · cases a with
        | turn o => exact (f.follows_settle d o).held_eq.trans h.held
        | take count => exact h.held
      · cases a with
        | turn o => exact (f.follows_settle d o).stopping_eq.trans h.stopping
        | take count => exact h.stopping
  | stop =>
      rw [Feed.move, h.stopped_eq]
      exact h
  | leave => exact absurd rfl hm

theorem IsStopped.follows (h : f.IsStopped) {g : Feed} (hg : Follows f g) : g.IsStopped where
  held := hg.held_eq.trans h.held
  stopping := hg.stopping_eq.trans h.stopping
  receiving := hg.receiving_eq.trans h.receiving
  isSound := hg.isSound h.isSound

theorem IsStopped.act (h : f.IsStopped) (a : Act) : (f.act d a).IsStopped :=
  h.move (m := .act a) fun hleave => by cases hleave

private theorem act_take_eq_or_lt (d : Desk) (f : Feed) (count : Nat) :
    f.act d (.take count) = f ∧ (count = 0 ∨ f.queue = []) ∨
      (f.act d (.take count)).queue.length < f.queue.length := by
  by_cases hnone : count = 0 ∨ f.queue = []
  · refine .inl ⟨?_, hnone⟩
    have hdrop : f.queue.drop count = f.queue := by
      rcases hnone with rfl | hnil
      · exact List.drop_zero
      · rw [hnil, List.drop_nil]
    simp only [act, hdrop]
  · obtain ⟨hcount, hqueue⟩ := not_or.mp hnone
    have hlength := List.length_pos_iff.mpr hqueue
    right
    simp only [act, List.length_drop]
    omega

/-! ### From phase to phase -/

/-- The receiver takes what is left in the queue of a feed that has ended, by induction on its
length. -/
private theorem closes_of_hasEnded (hended : f.hasEnded = true) : Closes d f := by
  induction hlength : f.queue.length using Nat.strong_induction_on generalizing f with
  | _ length ih =>
      by_cases hempty : f.queue = []
      · intro course _
        refine ⟨0, ?_⟩
        change f.isClosed = true
        rw [isClosed, hended, hempty]
        rfl
      · refine closes_of_helpful (Q := fun g => g.hasEnded = true ∧ g.queue = f.queue)
          exists_isTaking ?_ ⟨hended, rfl⟩
        rintro g m ⟨hg, hqueue⟩ hm
        cases m with
        | act a =>
            cases a with
            | turn o =>
                refine .inl ⟨not_false, ?_⟩
                rw [move, act, settle_of_hasEnded o hg]
                exact ⟨hg, hqueue⟩
            | take count =>
                rcases act_take_eq_or_lt d g count with ⟨hsame, hnone⟩ | hless
                · refine .inl ⟨?_, by rw [move, hsame]; exact ⟨hg, hqueue⟩⟩
                  rcases hnone with rfl | hnone
                  · exact Nat.lt_irrefl 0
                  · exact absurd (hqueue.symm.trans hnone) hempty
                · rw [hqueue, hlength] at hless
                  exact .inr (ih _ hless hg rfl)
        | stop => exact .inl ⟨not_false, hg, hqueue⟩
        | leave => exact absurd rfl hm

private theorem closes_of_act {helps : Move → Prop}
    (hcomes : ∀ course, IsEager course → ∃ n, helps (course n)) (hf : f.IsStopped)
    (hstop : ¬ helps .stop)
    (hact : ∀ a, (¬ helps (.act a) ∧ f.act d a = f) ∨ Closes d (f.act d a)) : Closes d f := by
  refine closes_of_helpful (Q := fun g => g = f) hcomes ?_ rfl
  rintro g m rfl hm
  cases m with
  | act a => exact hact a
  | stop => exact .inl ⟨hstop, hf.stopped_eq⟩
  | leave => exact absurd rfl hm

/-- A feed that has been told to stop closes in a phase in which every turn leaves it as it is or closes
it, and in which a turn that is late enough closes it: what the receiver takes meanwhile makes no
difference. -/
theorem closes_of_turn (tick : Nat) {P : Feed → Prop} (hf : f.IsStopped) (hphase : P f)
    (htake : ∀ g count, P g → P (g.act d (.take count)))
    (hturn : ∀ g o, g.IsStopped → P g →
      (¬ tick ≤ o.ticks ∧ g.act d (.turn o) = g) ∨ Closes d (g.act d (.turn o))) : Closes d f := by
  refine closes_of_helpful (Q := fun g => g.IsStopped ∧ P g) (exists_isTurnFrom tick) ?_ ⟨hf, hphase⟩
  rintro g m ⟨hg, hwaits⟩ hm
  cases m with
  | act a =>
      cases a with
      | turn o =>
          rcases hturn g o hg hwaits with ⟨hearly, hsame⟩ | hcloses
          · exact .inl ⟨hearly, by rw [move, hsame]; exact ⟨hg, hwaits⟩⟩
          · exact .inr hcloses
      | take count => exact .inl ⟨not_false, hg.move hm, htake g count hwaits⟩
  | stop =>
      rw [move, hg.stopped_eq]
      exact .inl ⟨not_false, hg, hwaits⟩
  | leave => exact absurd rfl hm

section Sooner

variable {k : Nat}
  (hsooner : ∀ m < k, ∀ f : Feed, f.IsStopped → f.batchFirst m = false → Closes d f)

include hsooner

private theorem closes_tick (hf : f.IsStopped) (hend : f.batchFirst k = false) (now due : Nat)
    (o : Office) :
    Closes d (f.tick d now due o).1 := by
  have hfollows := follows_tick d now f due o
  rcases f.tick_of_stopping d now due o hf.stopping hend with hended | ⟨-, m, hm, hfirst⟩
  · exact closes_of_hasEnded hended
  · exact hsooner m hm _ (hf.follows hfollows) hfirst

private theorem closes_of_idle {due : Nat} (hf : f.IsStopped) (hend : f.batchFirst k = false)
    (hphase : f.phase = .idle due) : Closes d f := by
  refine closes_of_turn 0 (P := fun g => g.phase = .idle due ∧ g.batchFirst k = false) hf
    ⟨hphase, hend⟩ (fun g count hwaits => hwaits) fun g o hg ⟨hwaits, hlater⟩ => .inr ?_
  rw [act, settle_of_idle_phase o hwaits]
  exact closes_tick hsooner hg hlater _ due o

/-- What is in hand goes into the queue as the receiver makes room for it, by induction on the rates
that are left, those in hand counted twice. -/
private theorem closes_of_delivering {next : Nat} {rest : List ExchangeRate} (hf : f.IsStopped)
    (hend : f.batchFirst k = false) (hphase : f.phase = .delivering next rest) : Closes d f := by
  induction hleft : 2 * rest.length + f.queue.length using Nat.strong_induction_on
    generalizing f rest with
  | _ left ih =>
      have htake : ∀ count, (f.act d (.take count) = f ∧ (count = 0 ∨ f.queue = [])) ∨
          Closes d (f.act d (.take count)) := by
        intro count
        rcases act_take_eq_or_lt d f count with hsame | hless
        · exact .inl hsame
        · exact .inr (ih _ (by omega) (hf.act _) hend hphase rfl)
      rcases Nat.eq_zero_or_pos f.room with hfull | hroom
      · have hstuck : f.isStuck = true := by
          rw [isStuck, isBlocked, hphase, hfull]
          rfl
        have hqueue : f.queue ≠ [] := by
          intro hnil
          rw [room, hnil] at hfull
          cases hfull
        refine closes_of_act exists_isTaking hf not_false fun a => ?_
        cases a with
        | turn o => exact .inl ⟨not_false, settle_of_isStuck o hf.isSound hf.receiving hstuck⟩
        | take count =>
            rcases htake count with ⟨hsame, rfl | hnil⟩ | hcloses
            · exact .inl ⟨Nat.lt_irrefl 0, hsame⟩
            · exact absurd hnil hqueue
            · exact .inr hcloses
      · refine closes_of_act (exists_isTurnFrom 0) hf not_false fun a => ?_
        cases a with
        | turn o =>
            right
            have hg := hf.act (d := d) (.turn o)
            have hdelivered := hf.follows (f.follows_deliver next fun hsound => by
              have hfits := hsound.fits
              rw [hphase] at hfits
              exact hfits.2)
            rw [act, settle_of_delivering o hphase] at hg ⊢
            rcases Nat.lt_or_ge f.room rest.length with hmore | hfits
            · rw [deliver_of_no_room hf.receiving hmore, proceed_of_not_idle rfl] at hg ⊢
              refine ih _ ?_ hg hend rfl rfl
              rw [List.length_drop]
              change 2 * (rest.length - f.room) + (f.queue ++ rest.take f.room).length < left
              rw [List.length_append, List.length_take]
              omega
            · rw [deliver_of_room hf.receiving hfits] at hdelivered ⊢
              rw [proceed_of_idle rfl]
              exact closes_tick hsooner hdelivered hend _ next o
        | take count =>
            rcases htake count with ⟨hsame, -⟩ | hcloses
            · exact .inl ⟨not_false, hsame⟩
            · exact .inr hcloses

private theorem closes_deliver (next : Nat) (batch : List ExchangeRate) (now : Nat) (o : Office)
    (hf : (f.deliver next batch).IsStopped) (hend : f.batchFirst k = false) :
    Closes d ((f.deliver next batch).proceed d now o) := by
  rcases f.deliver_cases next batch with ⟨-, -, heq⟩ | ⟨-, -, heq⟩ | ⟨-, -, heq⟩ <;> rw [heq] at hf ⊢
  · exact closes_of_hasEnded rfl
  · rw [proceed_of_idle rfl]
    exact closes_tick hsooner hf hend now next o
  · rw [proceed_of_not_idle rfl]
    exact closes_of_delivering hsooner hf hend rfl

omit hsooner in
private theorem closes_of_pricing {next wake : Nat} {rest : Wakening (List ExchangeRate)}
    (hf : f.IsStopped) (hend : f.batchFirst k = false) (hphase : f.phase = .pricing next wake rest)
    (hwake : ∀ (o : Office) now (g : Feed), (g.accept next (o.wake rest).1).IsStopped →
      g.batchFirst k = false →
      Closes d ((g.accept next (o.wake rest).1).proceed d now (o.wake rest).2)) :
    Closes d f := by
  refine closes_of_turn wake
    (P := fun g => g.phase = .pricing next wake rest ∧ g.batchFirst k = false) hf ⟨hphase, hend⟩
    (fun g count hsleeps => hsleeps) fun g o hg ⟨hsleeps, hlater⟩ => ?_
  rcases Nat.lt_or_ge o.ticks wake with hearly | hlate
  · exact .inl ⟨Nat.not_le.mpr hearly, settle_of_asleep hsleeps hearly⟩
  · have hfits := hg.isSound.fits
    rw [hsleeps] at hfits
    have hawake := hg.follows (g.follows_accept next fun _ => Office.yields_wake hfits o)
    rw [act, settle_of_awake hsleeps hlate]
    exact .inr (hwake o _ g hawake hlater)

private theorem closes_wake (next : Nat) (rest : Wakening (List ExchangeRate)) (o : Office) (now : Nat)
    (g : Feed) (hg : (g.accept next (o.wake rest).1).IsStopped) (hend : g.batchFirst k = false) :
    Closes d ((g.accept next (o.wake rest).1).proceed d now (o.wake rest).2) := by
  refine Office.wake_induction (Q := fun progress => ∀ (g : Feed) (o' : Office) now,
    (g.accept next progress).IsStopped → g.batchFirst k = false →
      Closes d ((g.accept next progress).proceed d now o')) ?_ ?_ ?_ rest o g _ now hg hend
  · exact fun batch g o' now hg hend => closes_deliver hsooner next batch now o' hg hend
  · exact fun g o' now _ _ => closes_of_hasEnded rfl
  · intro tick rest ih g o' now hg hend
    exact closes_of_pricing hg hend rfl fun o now g hg hend => ih o g _ now hg hend

end Sooner

/-- A feed that has been told to stop comes to its end, and its receiver to the end of the queue, if
the end comes first at some time: by induction on the batches that come before it. -/
theorem closes_of_isStopped {k : Nat} (hf : f.IsStopped) (hend : f.batchFirst k = false) :
    Closes d f := by
  induction k using Nat.strong_induction_on generalizing f with
  | _ k ih =>
      have hsooner : ∀ m < k, ∀ f : Feed, f.IsStopped → f.batchFirst m = false → Closes d f :=
        fun m hm f hf hend => ih m hm hf hend
      cases hphase : f.phase with
      | idle due => exact closes_of_idle hsooner hf hend hphase
      | pricing next wake rest =>
          exact closes_of_pricing hf hend hphase (closes_wake hsooner next rest)
      | delivering next rest => exact closes_of_delivering hsooner hf hend hphase
      | ended => exact closes_of_hasEnded (hasEnded_iff.mpr hphase)

end Feed

end Bureau
