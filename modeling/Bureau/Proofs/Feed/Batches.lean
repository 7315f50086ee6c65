import Bureau.Proofs.Feed.Basic

/-!
The batches of a feed. A feed moves in strides: it closes, asks for a batch, goes on with one or hands
one out. Noting down what it asks for and what it gets priced shows that nothing of a batch is lost or
repeated on the way into the queue, and that batches are asked for at beats of one rhythm, each beat
at most once.
-/

set_option autoImplicit false

namespace Bureau

/-- A batch that is asked for: the nanosecond at which it is due, and the one at which it is asked for.
-/
structure BatchCall where
  due : Nat
  now : Nat

inductive BatchNote where
  | asked (call : BatchCall)
  | priced (batch : List ExchangeRate)

namespace BatchNote

def call? : BatchNote → Option BatchCall
  | .asked call => some call
  | .priced _ => none

def batch? : BatchNote → Option (List ExchangeRate)
  | .asked _ => none
  | .priced batch => some batch

def ofProgress : Progress (List ExchangeRate) → List BatchNote
  | .finished batch => [.priced batch]
  | _ => []

def calls (notes : List BatchNote) : List BatchCall := notes.filterMap call?

def batches (notes : List BatchNote) : List (List ExchangeRate) := notes.filterMap batch?

@[simp] theorem calls_append (notes more : List BatchNote) :
    calls (notes ++ more) = calls notes ++ calls more := List.filterMap_append

@[simp] theorem batches_append (notes more : List BatchNote) :
    batches (notes ++ more) = batches notes ++ batches more := List.filterMap_append

@[simp] theorem calls_asked (call : BatchCall) (notes : List BatchNote) :
    calls (.asked call :: notes) = call :: calls notes := rfl

@[simp] theorem batches_asked (call : BatchCall) (notes : List BatchNote) :
    batches (.asked call :: notes) = batches notes := rfl

@[simp] theorem calls_ofProgress (progress : Progress (List ExchangeRate)) :
    calls (ofProgress progress) = [] := by
  cases progress <;> rfl

end BatchNote

open BatchNote

def FeedPhase.next? : FeedPhase → Option Nat
  | .idle next => some next
  | .pricing next _ _ => some next
  | .delivering next _ => some next
  | .ended => none

namespace Feed

/-! ### Notes -/

def tickNotes (d : Desk) (now : Nat) (f : Feed) (due : Nat) (o : Office) : List BatchNote :=
  if due ≤ now ∧ f.goesOn then
    let batch := o.perform (d.rates f.pairs)
    let next := f.following due now
    let g := f.decided.accept next batch.1
    .asked ⟨due, now⟩ ::
      (ofProgress batch.1 ++ if g.isIdle then g.tickNotes d now next batch.2 else [])
  else []
termination_by now + 1 - due
decreasing_by
  have := f.lt_following due now
  omega

def resumeNotes (now : Nat) (f : Feed) (o : Office) : List BatchNote :=
  match f.phase with
  | .pricing _ wake rest => if wake ≤ now then ofProgress (o.wake rest).1 else []
  | _ => []

def settleNotes (d : Desk) (f : Feed) (o : Office) : List BatchNote :=
  f.resumeNotes o.ticks o ++
    match (f.resume o.ticks o).1.phase with
    | .idle due =>
        (f.resume o.ticks o).1.tickNotes d (Timer.nanosAt o.ticks) due (f.resume o.ticks o).2
    | _ => []

def remaining (f : Feed) : List ExchangeRate :=
  match f.phase with
  | .delivering _ rest => rest
  | _ => []

/-! ### Strides -/

inductive Stride (d : Desk) (now : Nat) : Feed → List BatchNote → Feed → Prop
  | close {f : Feed} {due : Nat} (hphase : f.phase = .idle due) (hclosing : f.isClosing = true) :
      Stride d now f [] f.finish
  | ask {f : Feed} {due : Nat} (o : Office) (hphase : f.phase = .idle due) (hdue : due ≤ now) :
      Stride d now f (.asked ⟨due, now⟩ :: ofProgress (o.perform (d.rates f.pairs)).1)
        (f.decided.accept (f.following due now) (o.perform (d.rates f.pairs)).1)
  | wake {f : Feed} {next tick : Nat} {rest : Wakening (List ExchangeRate)} (o : Office)
      (hphase : f.phase = .pricing next tick rest) :
      Stride d now f (ofProgress (o.wake rest).1) (f.accept next (o.wake rest).1)
  | deliver {f : Feed} {next : Nat} {rest : List ExchangeRate}
      (hphase : f.phase = .delivering next rest) : Stride d now f [] (f.deliver next rest)

inductive Strides (d : Desk) (now : Nat) : Feed → List BatchNote → Feed → Prop
  | rest (f : Feed) : Strides d now f [] f
  | step {f g k : Feed} {notes more : List BatchNote} (first : Stride d now f notes g)
      (others : Strides d now g more k) : Strides d now f (notes ++ more) k

variable {d : Desk} {now : Nat} {f g : Feed} {notes : List BatchNote}

theorem Strides.now_eq (h : Strides d now f notes g) : ∀ call ∈ calls notes, call.now = now := by
  induction h with
  | rest f => exact nofun
  | step first others ih =>
      intro call hcall
      rw [calls_append] at hcall
      rcases List.mem_append.mp hcall with hfirst | hothers
      · cases first with
        | close hphase hclosing => cases hfirst
        | ask o hphase hdue =>
            rw [calls_asked, calls_ofProgress] at hfirst
            rw [List.mem_singleton.mp hfirst]
        | wake o hphase =>
            rw [calls_ofProgress] at hfirst
            cases hfirst
        | deliver hphase => cases hfirst
      · exact ih call hothers

private theorem phase_accept_of_isIdle {next : Nat} {progress : Progress (List ExchangeRate)}
    (hidle : (f.accept next progress).isIdle = true) :
    (f.accept next progress).phase = .idle next := by
  cases progress with
  | crashed => cases hidle
  | asleep wake rest => cases hidle
  | finished batch =>
      change (f.deliver next batch).isIdle = true at hidle
      change (f.deliver next batch).phase = _
      rcases f.deliver_cases next batch with ⟨-, -, heq⟩ | ⟨-, -, heq⟩ | ⟨-, -, heq⟩ <;>
        rw [heq] at hidle ⊢
      · cases hidle
      · cases hidle

/-- Catching up is a series of strides, by induction on the beats to catch up with. -/
private theorem strides_tick (d : Desk) (now : Nat) (f : Feed) (due : Nat) (o : Office)
    (hphase : f.phase = .idle due) :
    Strides d now f (f.tickNotes d now due o) (f.tick d now due o).1 := by
  fun_induction tickNotes d now f due o with
  | case1 f due o hbatch batch next g ih =>
      rw [tick_of_due d hbatch.1 hbatch.2]
      simp only
      cases hidle : g.isIdle with
      | true =>
          have hnext : g.phase = .idle next := phase_accept_of_isIdle hidle
          rw [if_pos rfl, if_pos rfl, ← List.cons_append]
          exact .step (.ask o hphase hbatch.1) (ih hnext)
      | false =>
          rw [if_neg Bool.false_ne_true, if_neg Bool.false_ne_true, ← List.cons_append]
          exact .step (.ask o hphase hbatch.1) (.rest _)
  | case2 f due o hnone =>
      cases hclosing : f.isClosing with
      | true =>
          rw [tick_of_end d hclosing hnone]
          exact .step (.close hphase hclosing) (.rest _)
      | false =>
          have hearly : now < due := Nat.not_le.mp fun hdue => hnone ⟨hdue, goesOn_of_open f hclosing⟩
          have hsame : { f with phase := .idle due } = f := by rw [← hphase]
          rw [tick_of_early d hclosing hearly, hsame]
          exact .rest f

private theorem stride_resume (d : Desk) (now : Nat) (f : Feed) (tick : Nat) (o : Office) :
    (f.resumeNotes tick o = [] ∧ (f.resume tick o).1 = f) ∨
      Stride d now f (f.resumeNotes tick o) (f.resume tick o).1 := by
  unfold resumeNotes resume
  cases hphase : f.phase with
  | idle due => exact .inl ⟨rfl, rfl⟩
  | pricing next tick rest =>
      simp only
      split_ifs
      · exact .inr (.wake o hphase)
      · exact .inl ⟨rfl, rfl⟩
  | delivering next rest => exact .inr (.deliver hphase)
  | ended => exact .inl ⟨rfl, rfl⟩

theorem strides_settle (d : Desk) (f : Feed) (o : Office) :
    Strides d (Timer.nanosAt o.ticks) f (f.settleNotes d o) (f.settle d o).1 := by
  have hafter : Strides d (Timer.nanosAt o.ticks) (f.resume o.ticks o).1
      (match (f.resume o.ticks o).1.phase with
        | .idle due =>
            (f.resume o.ticks o).1.tickNotes d (Timer.nanosAt o.ticks) due (f.resume o.ticks o).2
        | _ => []) (f.settle d o).1 := by
    cases hphase : (f.resume o.ticks o).1.phase with
    | idle due =>
        rw [settle_of_idle d hphase]
        exact strides_tick d _ _ due _ hphase
    | pricing | delivering | ended =>
        rw [settle_of_not_idle d (by rw [isIdle, hphase])]
        exact .rest _
  unfold settleNotes
  rcases f.stride_resume d (Timer.nanosAt o.ticks) o.ticks o with ⟨hnotes, hsame⟩ | hstride
  · rw [hnotes, List.nil_append]
    generalize (f.settle d o).1 = g at hafter ⊢
    rw [hsame] at hafter ⊢
    exact hafter
  · exact .step hstride hafter

/-! ### What a stride keeps -/

/-- A feed that is still the same subscription. -/
structure SameFeed (f g : Feed) : Prop where
  pairs_eq : g.pairs = f.pairs
  period_eq : g.period = f.period
  receiving_eq : g.receiving = f.receiving

private theorem sameFeed_deliver (f : Feed) (next : Nat) (batch : List ExchangeRate) :
    SameFeed f (f.deliver next batch) := by
  rcases f.deliver_cases next batch with ⟨-, -, heq⟩ | ⟨-, -, heq⟩ | ⟨-, -, heq⟩ <;> rw [heq] <;>
    exact ⟨rfl, rfl, rfl⟩

private theorem sameFeed_accept (f : Feed) (next : Nat) (progress : Progress (List ExchangeRate)) :
    SameFeed f (f.accept next progress) := by
  cases progress with
  | finished batch => exact f.sameFeed_deliver next batch
  | crashed => exact ⟨rfl, rfl, rfl⟩
  | asleep tick rest => exact ⟨rfl, rfl, rfl⟩

theorem Stride.sameFeed (h : Stride d now f notes g) : SameFeed f g := by
  cases h with
  | close hphase hclosing => exact ⟨rfl, rfl, rfl⟩
  | ask o hphase hdue =>
      obtain ⟨hpairs, hperiod, hreceiving⟩ := f.decided.sameFeed_accept (f.following _ now)
        (o.perform (d.rates f.pairs)).1
      exact ⟨hpairs.trans f.pairs_decided, hperiod.trans f.period_decided,
        hreceiving.trans f.receiving_decided⟩
  | wake o hphase => exact f.sameFeed_accept _ _
  | deliver hphase => exact f.sameFeed_deliver _ _

/-! ### Handing out -/

theorem queue_deliver (hreceiving : f.receiving = true) (next : Nat) (batch : List ExchangeRate) :
    (f.deliver next batch).queue ++ (f.deliver next batch).remaining = f.queue ++ batch := by
  rcases Nat.lt_or_ge f.room batch.length with hroom | hroom
  · rw [deliver_of_no_room hreceiving hroom, remaining]
    simp only [List.append_assoc, List.take_append_drop]
  · rw [deliver_of_room hreceiving hroom, remaining]
    simp only [List.append_nil]

private theorem queue_deliver_of_dropped (hreceiving : f.receiving = false) (next : Nat)
    (batch : List ExchangeRate) : (f.deliver next batch).queue = f.queue := by
  by_cases hbatch : batch = []
  · rw [hbatch, deliver_nil]
  · rw [deliver_of_dropped hreceiving hbatch]
    rfl

private theorem queue_accept (hreceiving : f.receiving = true) (hphase : f.remaining = []) (next : Nat)
    (progress : Progress (List ExchangeRate)) :
    (f.accept next progress).queue ++ (f.accept next progress).remaining =
      f.queue ++ f.remaining ++ (batches (ofProgress progress)).flatten := by
  rw [hphase, List.append_nil]
  cases progress with
  | finished batch =>
      have hone : (batches (ofProgress (.finished batch))).flatten = batch := List.append_nil batch
      rw [hone]
      exact queue_deliver hreceiving next batch
  | crashed => rfl
  | asleep tick rest => rfl

/-- What waits in the queue and in hand grows by the batches that are priced, and by nothing else. -/
theorem Stride.queue_eq (h : Stride d now f notes g) (hreceiving : f.receiving = true) :
    g.queue ++ g.remaining = f.queue ++ f.remaining ++ (batches notes).flatten := by
  cases h with
  | close hphase hclosing =>
      have hnone : f.remaining = [] := by rw [remaining, hphase]
      rw [hnone]
      exact (List.append_nil _).symm
  | @ask due o hphase hdue =>
      have hnone : f.remaining = [] := by rw [remaining, hphase]
      have hdecided : f.decided.remaining = [] := by rw [remaining, phase_decided, hphase]
      have haccept := queue_accept (f.receiving_decided.trans hreceiving) hdecided
        (f.following due now) (o.perform (d.rates f.pairs)).1
      rw [hdecided, queue_decided] at haccept
      rw [hnone]
      exact haccept
  | wake o hphase => exact queue_accept hreceiving (by rw [remaining, hphase]) _ _
  | deliver hphase =>
      rw [queue_deliver hreceiving, remaining, hphase]
      exact (List.append_nil _).symm

theorem Stride.queue_of_dropped (h : Stride d now f notes g) (hreceiving : f.receiving = false) :
    g.queue = f.queue := by
  have haccept : ∀ {f : Feed} next progress, f.receiving = false →
      (f.accept next progress).queue = f.queue := by
    intro f next progress hreceiving
    cases progress with
    | finished batch => exact queue_deliver_of_dropped hreceiving next batch
    | crashed => rfl
    | asleep tick rest => rfl
  cases h with
  | close hphase hclosing => rfl
  | ask o hphase hdue =>
      exact (haccept _ _ (f.receiving_decided.trans hreceiving)).trans f.queue_decided
  | wake o hphase => exact haccept _ _ hreceiving
  | deliver hphase => exact queue_deliver_of_dropped hreceiving _ _

/-! ### Pricing -/

/-- What a feed has in the making can only come to results of a kind. -/
def Prices (P : List ExchangeRate → Prop) (f : Feed) : Prop :=
  ∀ next tick rest, f.phase = .pricing next tick rest → rest.Yields P

private theorem prices_deliver {P : List ExchangeRate → Prop} (next : Nat) (batch : List ExchangeRate) :
    (f.deliver next batch).Prices P := by
  intro next' tick rest hphase
  rcases f.deliver_cases next batch with ⟨-, -, heq⟩ | ⟨-, -, heq⟩ | ⟨-, -, heq⟩ <;>
    rw [heq] at hphase <;> cases hphase

private theorem prices_accept {P : List ExchangeRate → Prop} {next : Nat}
    {progress : Progress (List ExchangeRate)} (h : progress.Yields P) :
    (∀ batch ∈ batches (ofProgress progress), P batch) ∧ (f.accept next progress).Prices P := by
  cases progress with
  | finished batch =>
      refine ⟨fun other hother => ?_, prices_deliver next batch⟩
      rw [List.mem_singleton.mp hother]
      exact h
  | crashed => exact ⟨nofun, fun _ _ _ hphase => by cases hphase⟩
  | asleep tick rest =>
      refine ⟨nofun, fun next' tick' rest' hphase => ?_⟩
      cases hphase
      exact h

theorem Stride.prices {P : List ExchangeRate → Prop} (h : Stride d now f notes g)
    (hrates : (d.rates f.pairs).Yields P) (hf : f.Prices P) :
    (∀ batch ∈ batches notes, P batch) ∧ g.Prices P := by
  cases h with
  | close hphase hclosing => exact ⟨nofun, fun _ _ _ hphase => by cases hphase⟩
  | ask o hphase hdue => exact prices_accept (Office.yields_perform hrates o)
  | wake o hphase => exact prices_accept (Office.yields_wake (hf _ _ _ hphase) o)
  | deliver hphase => exact ⟨nofun, prices_deliver _ _⟩

/-! ### Pace -/

/-- A beat of the rhythm that starts at a nanosecond. -/
def OnBeat (start period beat : Nat) : Prop := ∃ k, beat = start + k * period

private theorem onBeat_following {start due : Nat} (h : OnBeat start f.period due) (now : Nat) :
    OnBeat start f.period (f.following due now) := by
  obtain ⟨k, hk⟩ := h
  unfold following
  split
  · exact ⟨k + Timer.beats f.period due now, by rw [Timer.nextBeat, hk, Nat.add_mul, Nat.add_assoc]⟩
  · exact ⟨k + 1, by rw [hk, Nat.add_mul, Nat.one_mul, Nat.add_assoc]⟩

/-- The batches asked for so far were due at ascending beats of the rhythm, none before its time, and
all of them before the next one. -/
structure IsPaced (start : Nat) (f : Feed) (calls : List BatchCall) : Prop where
  ascending : calls.Pairwise fun call later => call.due < later.due
  onBeat : ∀ call ∈ calls, OnBeat start f.period call.due ∧ call.due ≤ call.now
  next : ∀ next, f.phase.next? = some next →
    OnBeat start f.period next ∧ ∀ call ∈ calls, call.due < next

private theorem next_deliver {next n : Nat} {batch : List ExchangeRate}
    (h : (f.deliver next batch).phase.next? = some n) : n = next := by
  rcases f.deliver_cases next batch with ⟨-, -, heq⟩ | ⟨-, -, heq⟩ | ⟨-, -, heq⟩ <;> rw [heq] at h <;>
    cases h <;> rfl

private theorem next_accept {next n : Nat} {progress : Progress (List ExchangeRate)}
    (h : (f.accept next progress).phase.next? = some n) : n = next := by
  cases progress with
  | finished batch => exact next_deliver h
  | crashed => cases h
  | asleep tick rest =>
      cases h
      rfl

theorem Stride.isPaced {start : Nat} {past : List BatchCall} (h : Stride d now f notes g)
    (hf : IsPaced start f past) : IsPaced start g (past ++ calls notes) := by
  have hperiod := h.sameFeed.period_eq
  cases h with
  | close hphase hclosing =>
      rw [show calls [] = [] from rfl, List.append_nil]
      exact ⟨hf.ascending, hf.onBeat, nofun⟩
  | @ask due o hphase hdue =>
      obtain ⟨hbeat, hbefore⟩ := hf.next due (by rw [hphase]; rfl)
      rw [calls_asked, calls_ofProgress]
      refine ⟨?_, ?_, ?_⟩
      · rw [List.pairwise_append]
        refine ⟨hf.ascending, List.pairwise_singleton _ _, fun call hcall later hlater => ?_⟩
        rw [List.mem_singleton.mp hlater]
        exact hbefore call hcall
      · rw [hperiod]
        intro call hcall
        rcases List.mem_append.mp hcall with hpast | hnew
        · exact hf.onBeat call hpast
        · rw [List.mem_singleton.mp hnew]
          exact ⟨hbeat, hdue⟩
      · rw [hperiod]
        intro next hnext
        have hlater := f.lt_following due now
        rw [next_accept hnext]
        refine ⟨onBeat_following hbeat now, fun call hcall => ?_⟩
        rcases List.mem_append.mp hcall with hpast | hnew
        · exact (hbefore call hpast).trans hlater
        · rw [List.mem_singleton.mp hnew]
          exact hlater
  | wake o hphase =>
      rw [calls_ofProgress, List.append_nil]
      refine ⟨hf.ascending, by rw [hperiod]; exact hf.onBeat, fun next hnext => ?_⟩
      rw [hperiod, next_accept hnext]
      exact hf.next _ (by rw [hphase]; rfl)
  | deliver hphase =>
      rw [show calls [] = [] from rfl, List.append_nil]
      refine ⟨hf.ascending, by rw [hperiod]; exact hf.onBeat, fun next hnext => ?_⟩
      rw [hperiod, next_deliver hnext]
      exact hf.next _ (by rw [hphase]; rfl)

private theorem length_le_of_beats (start period low : Nat) {bound : Nat} {past : List BatchCall}
    (hascending : past.Pairwise fun call later => call.due < later.due)
    (hbeats : ∀ call ∈ past, ∃ k, call.due = start + k * period ∧ low ≤ k ∧ k < bound) :
    past.length ≤ bound - low := by
  induction past generalizing low with
  | nil => exact Nat.zero_le _
  | cons call rest ih =>
      obtain ⟨hlater, hrest⟩ := List.pairwise_cons.mp hascending
      obtain ⟨k, hk, hlow, hbound⟩ := hbeats call List.mem_cons_self
      have htail : rest.length ≤ bound - (k + 1) := by
        refine ih (k + 1) hrest fun later hmem => ?_
        obtain ⟨l, hl, -, hlbound⟩ := hbeats later (List.mem_cons_of_mem call hmem)
        refine ⟨l, hl, ?_, hlbound⟩
        have hlt := hlater later hmem
        rw [hk, hl] at hlt
        exact Nat.lt_of_mul_lt_mul_right (Nat.lt_of_add_lt_add_left hlt)
      rw [List.length_cons]
      omega

/-- How many batches can have been asked for within a time. -/
theorem IsPaced.length_le {start : Nat} {past : List BatchCall} (h : IsPaced start f past)
    (time : Nat) :
    (past.filter fun call => call.now ≤ start + time).length ≤ time / f.period + 1 := by
  refine length_le_of_beats start f.period 0 (h.ascending.filter _) fun call hcall => ?_
  obtain ⟨hmem, htime⟩ := List.mem_filter.mp hcall
  obtain ⟨⟨k, hk⟩, hdue⟩ := h.onBeat call hmem
  have htime' : call.now ≤ start + time := of_decide_eq_true htime
  refine ⟨k, hk, Nat.zero_le k, Nat.lt_succ_of_le ?_⟩
  rw [Nat.le_div_iff_mul_le f.period_pos]
  omega

/-! ### Counting -/

def making (f : Feed) : Nat :=
  match f.phase with
  | .pricing _ _ _ => 1
  | _ => 0

private theorem making_accept (f : Feed) (next : Nat) (progress : Progress (List ExchangeRate)) :
    (batches (ofProgress progress)).length + (f.accept next progress).making ≤ 1 := by
  cases progress with
  | finished batch =>
      change 1 + (f.deliver next batch).making ≤ 1
      rcases f.deliver_cases next batch with ⟨-, -, heq⟩ | ⟨-, -, heq⟩ | ⟨-, -, heq⟩ <;> rw [heq] <;> rfl
  | crashed => exact Nat.zero_le 1
  | asleep tick rest => exact Nat.le_refl 1

theorem Stride.count_le (h : Stride d now f notes g) :
    (batches notes).length + g.making ≤ (calls notes).length + f.making := by
  cases h with
  | close hphase hclosing => exact Nat.zero_le _
  | ask o hphase hdue =>
      rw [batches_asked, calls_asked, calls_ofProgress]
      exact (f.decided.making_accept _ _).trans (Nat.le_add_right 1 _)
  | wake o hphase =>
      have hmaking : f.making = 1 := by rw [making, hphase]
      rw [calls_ofProgress, hmaking]
      exact f.making_accept _ _
  | @deliver next rest hphase =>
      have hdeliver := f.making_accept next (.finished rest)
      change 1 + (f.deliver next rest).making ≤ 1 at hdeliver
      change 0 + (f.deliver next rest).making ≤ _
      omega

end Feed

end Bureau
