import Bureau.Feed.Basic
import Bureau.Proofs.Program.Results

/-!
What a turn of a feed leaves as it is, and what always holds of a feed: its queue is never longer than
it may be, and what it has in hand is part of one batch.
-/

set_option autoImplicit false

namespace Bureau

/-- What a feed has in hand is part of a batch of so many rates at most, and a feed that waits for
room has something in hand. -/
def FeedPhase.Fits (size : Nat) : FeedPhase → Prop
  | .idle _ => True
  | .pricing _ _ rest => rest.Yields fun batch => batch.length ≤ size
  | .delivering _ rest => rest ≠ [] ∧ rest.length ≤ size
  | .ended => True

namespace Feed

/-! ### Handing out a batch -/

section Deliver

variable {f : Feed} {next : Nat} {batch : List ExchangeRate}

theorem deliver_of_dropped (hreceiving : f.receiving = false) (hbatch : batch ≠ []) :
    f.deliver next batch = f.finish := by
  unfold deliver
  rw [hreceiving, List.isEmpty_eq_false_iff.mpr hbatch]
  rfl

theorem deliver_nil (f : Feed) (next : Nat) : f.deliver next [] = { f with phase := .idle next } := by
  unfold deliver
  simp

theorem deliver_of_room (hreceiving : f.receiving = true) (hroom : batch.length ≤ f.room) :
    f.deliver next batch = { f with queue := f.queue ++ batch, phase := .idle next } := by
  unfold deliver
  rw [hreceiving, if_pos hroom, List.take_of_length_le hroom]
  rfl

theorem deliver_of_no_room (hreceiving : f.receiving = true) (hroom : f.room < batch.length) :
    f.deliver next batch = { f with
      queue := f.queue ++ batch.take f.room, phase := .delivering next (batch.drop f.room) } := by
  unfold deliver
  rw [hreceiving, if_neg (Nat.not_le.mpr hroom)]
  rfl

/-- The ways in which a batch is handed out: nobody receives it, there is room for it, or it fills the
queue. -/
theorem deliver_cases (f : Feed) (next : Nat) (batch : List ExchangeRate) :
    (f.receiving = false ∧ batch ≠ [] ∧ f.deliver next batch = f.finish) ∨
      (batch.length ≤ f.room ∧ (f.receiving = false → batch = []) ∧
        f.deliver next batch = { f with queue := f.queue ++ batch, phase := .idle next }) ∨
      f.receiving = true ∧ f.room < batch.length ∧ f.deliver next batch = { f with
        queue := f.queue ++ batch.take f.room, phase := .delivering next (batch.drop f.room) } := by
  rcases Bool.eq_false_or_eq_true f.receiving with hreceiving | hreceiving
  · rcases Nat.lt_or_ge f.room batch.length with hroom | hroom
    · exact .inr (.inr ⟨hreceiving, hroom, deliver_of_no_room hreceiving hroom⟩)
    · have hthere : f.receiving = false → batch = [] := fun hgone =>
        absurd (hgone.symm.trans hreceiving) Bool.false_ne_true
      exact .inr (.inl ⟨hroom, hthere, deliver_of_room hreceiving hroom⟩)
  · by_cases hbatch : batch = []
    · subst hbatch
      refine .inr (.inl ⟨Nat.zero_le _, fun _ => rfl, ?_⟩)
      rw [deliver_nil, List.append_nil]
    · exact .inl ⟨hreceiving, hbatch, deliver_of_dropped hreceiving hbatch⟩

theorem room_deliver (hreceiving : f.receiving = true) (hroom : f.room < batch.length) :
    (f.deliver next batch).room = 0 := by
  rw [deliver_of_no_room hreceiving hroom]
  unfold room at hroom ⊢
  simp only [List.length_append, List.length_take]
  omega

end Deliver

/-! ### What comes first -/

section Decided

variable (f : Feed)

private theorem decided_eq : f.decided = { f with batchFirst := f.decided.batchFirst } := by
  unfold decided
  split <;> rfl

@[simp] theorem pairs_decided : f.decided.pairs = f.pairs := by rw [decided_eq]
@[simp] theorem period_decided : f.decided.period = f.period := by rw [decided_eq]
@[simp] theorem phase_decided : f.decided.phase = f.phase := by rw [decided_eq]
@[simp] theorem queue_decided : f.decided.queue = f.queue := by rw [decided_eq]
@[simp] theorem room_decided : f.decided.room = f.room := by rw [decided_eq, room, room]
@[simp] theorem receiving_decided : f.decided.receiving = f.receiving := by rw [decided_eq]
@[simp] theorem stopping_decided : f.decided.stopping = f.stopping := by rw [decided_eq]

theorem decided_of_open (hopen : f.isClosing = false) : f.decided = f := by
  unfold decided
  rw [hopen]
  rfl

theorem goesOn_of_open (hopen : f.isClosing = false) : f.goesOn = true := by
  rw [goesOn, hopen]
  rfl

end Decided

/-! ### What always holds -/

structure IsSound (f : Feed) : Prop where
  queue_le : f.queue.length ≤ capacity
  fits : f.phase.Fits f.pairs.length

/-- A feed after a turn, or a part of one, of the same subscription. -/
structure Follows (f g : Feed) : Prop where
  pairs_eq : g.pairs = f.pairs
  reader_eq : g.reader = f.reader
  receiving_eq : g.receiving = f.receiving
  held_eq : g.held = f.held
  stopping_eq : g.stopping = f.stopping
  isSound : f.IsSound → g.IsSound

theorem Follows.refl (f : Feed) : Follows f f := ⟨rfl, rfl, rfl, rfl, rfl, fun h => h⟩

theorem Follows.trans {f g k : Feed} (hfg : Follows f g) (hgk : Follows g k) : Follows f k where
  pairs_eq := hgk.pairs_eq.trans hfg.pairs_eq
  reader_eq := hgk.reader_eq.trans hfg.reader_eq
  receiving_eq := hgk.receiving_eq.trans hfg.receiving_eq
  held_eq := hgk.held_eq.trans hfg.held_eq
  stopping_eq := hgk.stopping_eq.trans hfg.stopping_eq
  isSound h := hgk.isSound (hfg.isSound h)

private theorem follows_finish (f : Feed) : Follows f f.finish :=
  ⟨rfl, rfl, rfl, rfl, rfl, fun h => ⟨h.queue_le, trivial⟩⟩

private theorem follows_idle (f : Feed) (next : Nat) : Follows f { f with phase := .idle next } :=
  ⟨rfl, rfl, rfl, rfl, rfl, fun h => ⟨h.queue_le, trivial⟩⟩

private theorem follows_decided (f : Feed) : Follows f f.decided := by
  rw [decided_eq]
  exact ⟨rfl, rfl, rfl, rfl, rfl, fun h => ⟨h.queue_le, h.fits⟩⟩

theorem follows_deliver (f : Feed) (next : Nat) {batch : List ExchangeRate}
    (hbatch : f.IsSound → batch.length ≤ f.pairs.length) : Follows f (f.deliver next batch) := by
  rcases f.deliver_cases next batch with ⟨-, -, heq⟩ | ⟨hroom, -, heq⟩ | ⟨-, hroom, heq⟩ <;> rw [heq]
  · exact f.follows_finish
  · refine ⟨rfl, rfl, rfl, rfl, rfl, fun h => ⟨?_, trivial⟩⟩
    have hqueue := h.queue_le
    unfold room at hroom
    simp only [List.length_append]
    omega
  · refine ⟨rfl, rfl, rfl, rfl, rfl, fun h => ⟨?_, ?_, ?_⟩⟩
    · have hqueue := h.queue_le
      simp only [List.length_append, List.length_take, room]
      omega
    · intro hnil
      have hlength := List.drop_eq_nil_iff.mp hnil
      omega
    · rw [List.length_drop]
      exact (Nat.sub_le _ _).trans (hbatch h)

theorem follows_accept (f : Feed) (next : Nat) {progress : Progress (List ExchangeRate)}
    (hprogress : f.IsSound → progress.Yields fun batch => batch.length ≤ f.pairs.length) :
    Follows f (f.accept next progress) := by
  cases progress with
  | finished batch => exact f.follows_deliver next hprogress
  | crashed => exact f.follows_finish
  | asleep wake rest => exact ⟨rfl, rfl, rfl, rfl, rfl, fun h => ⟨h.queue_le, hprogress h⟩⟩

theorem follows_resume (f : Feed) (now : Nat) (o : Office) : Follows f (f.resume now o).1 := by
  unfold resume
  cases hphase : f.phase with
  | idle next => exact .refl f
  | pricing next wake rest =>
      simp only
      split
      · apply f.follows_accept next
        intro hf
        have hfits := hf.fits
        rw [hphase] at hfits
        exact Office.yields_wake hfits o
      · exact .refl f
  | delivering next rest =>
      apply f.follows_deliver next
      intro hf
      have hfits := hf.fits
      rw [hphase] at hfits
      exact hfits.2
  | ended => exact .refl f

theorem follows_accept_perform (d : Desk) (f : Feed) (next : Nat) (o : Office) :
    Follows f (f.decided.accept next (o.perform (d.rates f.pairs)).1) := by
  refine f.follows_decided.trans (f.decided.follows_accept next fun _ => ?_)
  rw [pairs_decided]
  exact Office.yields_perform (d.yields_rates f.pairs) o

/-- By induction on the beats that a feed catches up with. -/
theorem follows_tick (d : Desk) (now : Nat) (f : Feed) (due : Nat) (o : Office) :
    Follows f (f.tick d now due o).1 := by
  fun_induction tick d now f due o with
  | case1 f due o hbatch progress o' hperform next g later hphase ih =>
      have haccept := f.follows_accept_perform d next o
      rw [hperform] at haccept
      exact haccept.trans ih
  | case2 f due o hbatch progress o' hperform next g hphase =>
      have haccept := f.follows_accept_perform d next o
      rw [hperform] at haccept
      exact haccept
  | case3 f due o hbatch hclosing => exact f.follows_finish
  | case4 f due o hbatch hopen => exact f.follows_idle due

/-! ### Beats and turns -/

theorem isIdle_iff {f : Feed} : f.isIdle = true ↔ ∃ due, f.phase = .idle due := by
  unfold isIdle
  cases f.phase <;> simp

theorem hasEnded_iff {f : Feed} : f.hasEnded = true ↔ f.phase = .ended := by
  unfold hasEnded
  cases f.phase <;> simp

theorem tick_of_end (d : Desk) {now due : Nat} {f : Feed} {o : Office} (hclosing : f.isClosing = true)
    (hbatch : ¬(due ≤ now ∧ f.goesOn = true)) : f.tick d now due o = (f.finish, o) := by
  rw [tick, if_neg hbatch, if_pos hclosing]

theorem tick_of_early (d : Desk) {now due : Nat} {f : Feed} {o : Office}
    (hopen : f.isClosing = false) (hdue : now < due) :
    f.tick d now due o = ({ f with phase := .idle due }, o) := by
  rw [tick, if_neg fun hbatch => Nat.not_le.mpr hdue hbatch.1, if_neg (Bool.eq_false_iff.mp hopen)]

theorem tick_of_due (d : Desk) {now due : Nat} {f : Feed} {o : Office} (hdue : due ≤ now)
    (hgoes : f.goesOn = true) :
    f.tick d now due o =
      let batch := o.perform (d.rates f.pairs)
      let g := f.decided.accept (f.following due now) batch.1
      if g.isIdle then g.tick d now (f.following due now) batch.2 else (g, batch.2) := by
  rw [tick, if_pos ⟨hdue, hgoes⟩]
  simp only
  split
  · next later hphase => rw [if_pos (isIdle_iff.mpr ⟨later, hphase⟩)]
  · next hphase =>
      refine (if_neg fun hidle => ?_).symm
      obtain ⟨later, hlater⟩ := isIdle_iff.mp hidle
      exact hphase later hlater

theorem settle_of_idle (d : Desk) {f : Feed} {o : Office} {due : Nat}
    (hidle : (f.resume o.ticks o).1.phase = .idle due) :
    f.settle d o = (f.resume o.ticks o).1.tick d (Timer.nanosAt o.ticks) due (f.resume o.ticks o).2 := by
  unfold settle
  simp only [hidle]

theorem settle_of_not_idle (d : Desk) {f : Feed} {o : Office}
    (hidle : (f.resume o.ticks o).1.isIdle = false) : f.settle d o = f.resume o.ticks o := by
  unfold settle
  cases hphase : (f.resume o.ticks o).1.phase with
  | idle due =>
      rw [isIdle_iff.mpr ⟨due, hphase⟩] at hidle
      cases hidle
  | _ => simp only [hphase]

theorem follows_settle (d : Desk) (f : Feed) (o : Office) : Follows f (f.settle d o).1 := by
  have hresume := f.follows_resume o.ticks o
  cases hidle : (f.resume o.ticks o).1.isIdle with
  | false =>
      rw [settle_of_not_idle d hidle]
      exact hresume
  | true =>
      obtain ⟨due, hphase⟩ := isIdle_iff.mp hidle
      rw [settle_of_idle d hphase]
      exact hresume.trans (follows_tick d _ _ due _)

end Feed

end Bureau
