import Bureau.Proofs.Desk.Standard
import Bureau.Proofs.Feed.Basic
import Bureau.Proofs.Office.Background

/-!
Stopping a feed. A feed that has been told to stop goes on with the batch in hand, and with the batches
that are due and come before its end. It ends unless one of them fills the queue; then it waits for the
receiver, and it waits forever if the receiver takes nothing more.
-/

set_option autoImplicit false

namespace Bureau

/-- The offices that a feed finds from turn to turn. Time goes on from one to the other, past every
tick. -/
structure World where
  office : Nat → Office
  goes_on : ∀ tick, ∃ n, ∀ m, n ≤ m → tick ≤ (office m).ticks

namespace Feed

/-- What happens to a subscription that has a receiver: the feed has a turn, or the receiver takes a
number of rates. -/
inductive Act where
  | turn (o : Office)
  | take (count : Nat)

def act (d : Desk) (f : Feed) : Act → Feed
  | .turn o => (f.settle d o).1
  | .take count => { f with queue := f.queue.drop count }

def run (d : Desk) (acts : List Act) (f : Feed) : Feed := acts.foldl (act d) f

def stopped (f : Feed) : Feed := { f with held := false, stopping := true }

/-- A number of turns, from the turn `start` of the world on, while nobody takes anything. -/
def turns (d : Desk) (w : World) : (start count : Nat) → Feed → Feed
  | _, 0, f => f
  | start, count + 1, f => turns d w (start + 1) count (f.settle d (w.office start)).1

def isStuck (f : Feed) : Bool := f.isBlocked && f.room == 0

/-- How many rates a feed may hand out before it looks again whether it was told to stop. -/
def inHand (f : Feed) : Nat :=
  match f.phase with
  | .pricing _ _ _ => f.pairs.length
  | .delivering _ rest => rest.length
  | _ => 0

/-! ### Runs and turns -/

theorem isSound_start (pairs : List CurrencyPair) (interval : Duration) (reader : Reader)
    (batchFirst : Nat → Bool) (tick : Nat) : (start pairs interval reader batchFirst tick).IsSound := by
  unfold start
  split <;> exact ⟨Nat.zero_le _, trivial⟩

theorem start_eq (pairs : List CurrencyPair) (interval : Duration) (reader : Reader)
    (batchFirst : Nat → Bool) (tick : Nat) :
    let f := start pairs interval reader batchFirst tick
    f.pairs = pairs ∧ f.reader = reader ∧ f.receiving = true ∧ f.stopping = false ∧
      f.batchFirst = batchFirst := by
  unfold start
  split <;> exact ⟨rfl, rfl, rfl, rfl, rfl⟩

theorem isSound_act (d : Desk) {f : Feed} (hf : f.IsSound) (a : Act) : (f.act d a).IsSound := by
  cases a with
  | turn o => exact (f.follows_settle d o).isSound hf
  | take count =>
      refine ⟨?_, hf.fits⟩
      have hqueue := hf.queue_le
      simp only [act, List.length_drop]
      omega

theorem receiving_act (d : Desk) (f : Feed) (a : Act) : (f.act d a).receiving = f.receiving := by
  cases a with
  | turn o => exact (f.follows_settle d o).receiving_eq
  | take count => rfl

/-- By induction on what happens: the receiver stays, and so does what always holds. -/
private theorem isSound_run (d : Desk) (acts : List Act) {f : Feed} (hf : f.IsSound) :
    (run d acts f).IsSound ∧ (run d acts f).receiving = f.receiving := by
  induction acts generalizing f with
  | nil => exact ⟨hf, rfl⟩
  | cons a rest ih =>
      obtain ⟨hsound, hreceiving⟩ := ih (isSound_act d hf a)
      exact ⟨hsound, hreceiving.trans (receiving_act d f a)⟩

variable {d : Desk} {w : World} {f : Feed}

private theorem turns_add (start m n : Nat) :
    turns d w start (m + n) f = turns d w (start + m) n (turns d w start m f) := by
  induction m generalizing start f with
  | zero => rw [Nat.zero_add, Nat.add_zero, turns]
  | succ m ih =>
      have hstart : start + (m + 1) = start + 1 + m := by omega
      rw [Nat.succ_add, turns, ih, turns, hstart]

private theorem follows_turns (f : Feed) (start n : Nat) : Follows f (turns d w start n f) := by
  induction n generalizing start f with
  | zero => exact .refl f
  | succ n ih =>
      have hsettle := f.follows_settle d (w.office start)
      exact hsettle.trans (ih _ (start + 1))

/-! ### What is still to turn out -/

@[simp] theorem batchFirst_deliver (f : Feed) (next : Nat) (batch : List ExchangeRate) :
    (f.deliver next batch).batchFirst = f.batchFirst := by
  rcases f.deliver_cases next batch with ⟨-, -, heq⟩ | ⟨-, -, heq⟩ | ⟨-, -, heq⟩ <;> rw [heq]
  rfl

@[simp] theorem batchFirst_accept (f : Feed) (next : Nat) (progress : Progress (List ExchangeRate)) :
    (f.accept next progress).batchFirst = f.batchFirst := by
  cases progress with
  | finished batch => exact f.batchFirst_deliver next batch
  | crashed => rfl
  | asleep wake rest => rfl

@[simp] theorem batchFirst_resume (f : Feed) (now : Nat) (o : Office) :
    (f.resume now o).1.batchFirst = f.batchFirst := by
  unfold resume
  split
  · split
    · exact f.batchFirst_accept _ _
    · rfl
  · exact f.batchFirst_deliver _ _
  · rfl

private theorem isClosing_of_open (hreceiving : f.receiving = true) (hstopping : f.stopping = false) :
    f.isClosing = false := by
  rw [isClosing, hreceiving, hstopping]
  rfl

theorem isClosing_of_stopping (hstopping : f.stopping = true) : f.isClosing = true := by
  rw [isClosing, hstopping, Bool.true_or]

/-- A feed that cannot end has nothing to find out, by induction on the beats that it catches up with.
-/
private theorem batchFirst_tick_of_open (d : Desk) (now : Nat) (f : Feed) (due : Nat) (o : Office)
    (hreceiving : f.receiving = true) (hstopping : f.stopping = false) :
    (f.tick d now due o).1.batchFirst = f.batchFirst := by
  fun_induction tick d now f due o with
  | case1 f due o hbatch progress o' hperform next g later hphase ih =>
      have hfollows := f.follows_accept_perform d next o
      rw [hperform] at hfollows
      refine (ih (hfollows.receiving_eq.trans hreceiving) (hfollows.stopping_eq.trans hstopping)).trans ?_
      rw [batchFirst_accept, decided_of_open _ (isClosing_of_open hreceiving hstopping)]
  | case2 f due o hbatch progress o' hperform next g hphase =>
      rw [batchFirst_accept, decided_of_open _ (isClosing_of_open hreceiving hstopping)]
  | case3 f due o hbatch hclosing => rfl
  | case4 f due o hbatch hopen => rfl

/-- What a feed does once it has been resumed in a turn: it goes on with its next beat if it is through
with its batch. -/
def proceed (d : Desk) (now : Nat) (f : Feed) (o : Office) : Feed :=
  match f.phase with
  | .idle due => (f.tick d now due o).1
  | _ => f

theorem proceed_of_idle {due : Nat} (hphase : f.phase = .idle due) (now : Nat) (o : Office) :
    f.proceed d now o = (f.tick d now due o).1 := by
  unfold proceed
  simp only [hphase]

theorem proceed_of_not_idle (hidle : f.isIdle = false) (now : Nat) (o : Office) :
    f.proceed d now o = f := by
  unfold proceed
  split
  · next due hphase =>
      rw [isIdle_iff.mpr ⟨due, hphase⟩] at hidle
      cases hidle
  · rfl

private theorem settle_eq_proceed (d : Desk) (f : Feed) (o : Office) :
    (f.settle d o).1 =
      (f.resume o.ticks o).1.proceed d (Timer.nanosAt o.ticks) (f.resume o.ticks o).2 := by
  cases hidle : (f.resume o.ticks o).1.isIdle with
  | true =>
      obtain ⟨due, hphase⟩ := isIdle_iff.mp hidle
      rw [settle_of_idle d hphase, proceed_of_idle hphase]
  | false => rw [settle_of_not_idle d hidle, proceed_of_not_idle hidle]

private theorem batchFirst_act_of_open (d : Desk) (hreceiving : f.receiving = true)
    (hstopping : f.stopping = false) (a : Act) : (f.act d a).batchFirst = f.batchFirst := by
  cases a with
  | take count => rfl
  | turn o =>
      have hresume := f.follows_resume o.ticks o
      rw [act, settle_eq_proceed]
      cases hidle : (f.resume o.ticks o).1.isIdle with
      | true =>
          obtain ⟨due, hphase⟩ := isIdle_iff.mp hidle
          rw [proceed_of_idle hphase, batchFirst_tick_of_open d _ _ due _
            (hresume.receiving_eq.trans hreceiving) (hresume.stopping_eq.trans hstopping),
            batchFirst_resume]
      | false => rw [proceed_of_not_idle hidle, batchFirst_resume]

private theorem stopping_act (d : Desk) (f : Feed) (a : Act) : (f.act d a).stopping = f.stopping := by
  cases a with
  | turn o => exact (f.follows_settle d o).stopping_eq
  | take count => rfl

private theorem batchFirst_run_of_open (d : Desk) (acts : List Act) (hreceiving : f.receiving = true)
    (hstopping : f.stopping = false) : (run d acts f).batchFirst = f.batchFirst := by
  induction acts generalizing f with
  | nil => rfl
  | cons a rest ih =>
      exact (ih ((receiving_act d f a).trans hreceiving) ((stopping_act d f a).trans hstopping)).trans
        (batchFirst_act_of_open d hreceiving hstopping a)

private theorem pairs_run (d : Desk) (acts : List Act) (f : Feed) : (run d acts f).pairs = f.pairs := by
  induction acts generalizing f with
  | nil => rfl
  | cons a rest ih =>
      refine (ih (f.act d a)).trans ?_
      cases a with
      | turn o => exact (f.follows_settle d o).pairs_eq
      | take count => rfl

/-! ### Feeds that stay as they are -/

theorem settle_eq_of_hasEnded (o : Office) (hended : f.hasEnded = true) : f.settle d o = (f, o) := by
  simp only [settle, resume, hasEnded_iff.mp hended]

theorem settle_of_hasEnded (o : Office) (hended : f.hasEnded = true) : (f.settle d o).1 = f :=
  congrArg Prod.fst (settle_eq_of_hasEnded o hended)

private theorem exists_of_isStuck (hf : f.IsSound) (hstuck : f.isStuck = true) :
    ∃ next rate rest, f.phase = .delivering next (rate :: rest) ∧ f.room = 0 := by
  rw [isStuck, Bool.and_eq_true, beq_iff_eq] at hstuck
  obtain ⟨hblocked, hroom⟩ := hstuck
  have hfits := hf.fits
  unfold isBlocked at hblocked
  split at hblocked
  · rename_i next rest hphase
    rw [hphase] at hfits
    obtain ⟨rate, rest, rfl⟩ := List.exists_cons_of_ne_nil hfits.1
    exact ⟨next, rate, rest, hphase, hroom⟩
  · cases hblocked

private theorem deliver_of_full {next : Nat} {batch : List ExchangeRate}
    (hreceiving : f.receiving = true) (hroom : f.room = 0) (hbatch : batch ≠ []) :
    f.deliver next batch = { f with phase := .delivering next batch } := by
  have hmore : f.room < batch.length := by
    rw [hroom]
    exact List.length_pos_iff.mpr hbatch
  rw [deliver_of_no_room hreceiving hmore, hroom, List.take_zero, List.append_nil, List.drop_zero]

theorem settle_of_isStuck (o : Office) (hf : f.IsSound) (hreceiving : f.receiving = true)
    (hstuck : f.isStuck = true) : (f.settle d o).1 = f := by
  obtain ⟨next, rate, rest, hphase, hroom⟩ := exists_of_isStuck hf hstuck
  have hresume : f.resume o.ticks o = (f, o) := by
    unfold resume
    rw [hphase]
    simp only
    rw [deliver_of_full hreceiving hroom (List.cons_ne_nil rate rest), ← hphase]
  have hidle : (f.resume o.ticks o).1.isIdle = false := by
    rw [hresume, isIdle, hphase]
  rw [settle_of_not_idle d hidle, hresume]

private theorem turns_of_settle {start n : Nat}
    (hsettle : ∀ m < n, (f.settle d (w.office (start + m))).1 = f) : turns d w start n f = f := by
  induction n with
  | zero => rfl
  | succ n ih =>
      have hbefore := ih fun m hm => hsettle m (Nat.lt_succ_of_lt hm)
      rw [turns_add, hbefore, turns, turns]
      exact hsettle n (Nat.lt_succ_self n)

/-! ### Turns of a feed that has been told to stop -/

/-- A batch that comes first on a feed that has been told to stop uses up one of the things still to
turn out. -/
theorem exists_end_of_goesOn {k : Nat} (hstopping : f.stopping = true) (hgoes : f.goesOn = true)
    (hend : f.batchFirst k = false) : ∃ m, k = m + 1 ∧ f.decided.batchFirst m = false := by
  have hclosing := isClosing_of_stopping hstopping
  rw [goesOn, hclosing] at hgoes
  cases k with
  | zero => cases hgoes.symm.trans hend
  | succ m =>
      refine ⟨m, rfl, ?_⟩
      rw [decided, if_pos hclosing]
      exact hend

/-- A feed that has been told to stop and looks for its next beat ends, or it has a batch in hand for
which one of the things still to turn out is used up. -/
theorem tick_of_stopping (d : Desk) (now : Nat) (f : Feed) (due : Nat) (o : Office)
    (hstopping : f.stopping = true) {k : Nat} (hend : f.batchFirst k = false) :
    (f.tick d now due o).1.hasEnded = true ∨
      (f.tick d now due o).1.isIdle = false ∧
        ∃ m < k, (f.tick d now due o).1.batchFirst m = false := by
  fun_induction tick d now f due o generalizing k
  case case1 f due o hbatch progress o' hperform next g later hphase ih =>
    obtain ⟨m, rfl, hlater⟩ := exists_end_of_goesOn hstopping hbatch.2 hend
    have hfollows := f.follows_accept_perform d next o
    rw [hperform] at hfollows
    have hend' : g.batchFirst m = false := by rw [batchFirst_accept, hlater]
    rcases ih (hfollows.stopping_eq.trans hstopping) hend' with hended | ⟨hidle, l, hl, hfirst⟩
    · exact .inl hended
    · exact .inr ⟨hidle, l, hl.trans (Nat.lt_succ_self m), hfirst⟩
  case case2 f due o hbatch progress o' hperform next g hphase =>
    obtain ⟨m, rfl, hlater⟩ := exists_end_of_goesOn hstopping hbatch.2 hend
    refine .inr ⟨Bool.eq_false_iff.mpr fun hidle => ?_, m, Nat.lt_succ_self m,
      by rw [batchFirst_accept, hlater]⟩
    obtain ⟨later, hlater⟩ := isIdle_iff.mp hidle
    exact hphase later hlater
  case case3 => exact .inl rfl
  case case4 hopen => exact absurd (isClosing_of_stopping hstopping) hopen

/-- After some turns the feed has ended or is stuck. -/
def EndsOrSticks (d : Desk) (w : World) (start : Nat) (f : Feed) : Prop :=
  ∃ n, (turns d w start n f).hasEnded = true ∨ (turns d w start n f).isStuck = true

private theorem EndsOrSticks.of_turns {start n : Nat}
    (h : EndsOrSticks d w (start + n) (turns d w start n f)) : EndsOrSticks d w start f := by
  obtain ⟨m, hm⟩ := h
  exact ⟨n + m, by rwa [turns_add]⟩

private theorem endsOrSticks_of_hasEnded (hended : f.hasEnded = true) (start : Nat) :
    EndsOrSticks d w start f := ⟨0, .inl hended⟩

theorem settle_of_asleep {next wake : Nat} {rest : Wakening (List ExchangeRate)} {o : Office}
    (hphase : f.phase = .pricing next wake rest) (hnow : o.ticks < wake) :
    (f.settle d o).1 = f := by
  have hresume : f.resume o.ticks o = (f, o) := by
    unfold resume
    rw [hphase]
    exact if_neg (Nat.not_le.mpr hnow)
  have hidle : (f.resume o.ticks o).1.isIdle = false := by
    rw [hresume, isIdle, hphase]
  rw [settle_of_not_idle d hidle, hresume]

theorem settle_of_awake {next wake : Nat} {rest : Wakening (List ExchangeRate)} {o : Office}
    (hphase : f.phase = .pricing next wake rest) (hnow : wake ≤ o.ticks) :
    (f.settle d o).1 =
      (f.accept next (o.wake rest).1).proceed d (Timer.nanosAt o.ticks) (o.wake rest).2 := by
  have hresume : f.resume o.ticks o = (f.accept next (o.wake rest).1, (o.wake rest).2) := by
    unfold resume
    rw [hphase]
    simp only [if_pos hnow]
  rw [settle_eq_proceed, hresume]

theorem settle_of_delivering {next : Nat} {rest : List ExchangeRate} (o : Office)
    (hphase : f.phase = .delivering next rest) :
    (f.settle d o).1 = (f.deliver next rest).proceed d (Timer.nanosAt o.ticks) o := by
  rw [settle_eq_proceed, resume, hphase]

theorem settle_of_idle_phase {due : Nat} (o : Office) (hphase : f.phase = .idle due) :
    (f.settle d o).1 = (f.tick d (Timer.nanosAt o.ticks) due o).1 := by
  have hresume : f.resume o.ticks o = (f, o) := by
    unfold resume
    rw [hphase]
  rw [settle_eq_proceed, hresume, proceed_of_idle hphase]

private theorem accept_asleep_accept (f : Feed) (next wake : Nat) (rest : Wakening (List ExchangeRate))
    (progress : Progress (List ExchangeRate)) :
    (f.accept next (.asleep wake rest)).accept next progress = f.accept next progress := by
  cases progress <;> rfl

private theorem endsOrSticks_of_asleep {start next wake : Nat} {rest : Wakening (List ExchangeRate)}
    (hphase : f.phase = .pricing next wake rest) (hwake : ∀ (o o' : Office) now later,
      EndsOrSticks d w later ((f.accept next (o.wake rest).1).proceed d now o')) :
    EndsOrSticks d w start f := by
  have hcomes : ∃ n, wake ≤ (w.office (start + n)).ticks := by
    obtain ⟨n, hn⟩ := w.goes_on wake
    exact ⟨n, hn _ (Nat.le_add_left n start)⟩
  classical
  have hsleep : turns d w start (Nat.find hcomes) f = f := by
    apply turns_of_settle
    intro m hm
    exact settle_of_asleep hphase (Nat.not_le.mp (Nat.find_min hcomes hm))
  apply EndsOrSticks.of_turns (n := Nat.find hcomes + 1)
  rw [turns_add, hsleep, turns, turns, settle_of_awake hphase (Nat.find_spec hcomes)]
  exact hwake _ _ _ _

/-! ### One batch after the other

A batch that comes first uses up one of the things still to turn out, so by induction on how many
there are before the end comes first. -/

section Sooner

variable {k : Nat}
  (hsooner : ∀ m < k, ∀ (f : Feed) (start : Nat), f.stopping = true → f.batchFirst m = false →
    EndsOrSticks d w start f)

include hsooner

private theorem endsOrSticks_tick (hstopping : f.stopping = true) (hend : f.batchFirst k = false)
    (now due : Nat) (o : Office) (start : Nat) : EndsOrSticks d w start (f.tick d now due o).1 := by
  have hstops := (follows_tick d now f due o).stopping_eq.trans hstopping
  rcases f.tick_of_stopping d now due o hstopping hend with hended | ⟨-, m, hm, hfirst⟩
  · exact endsOrSticks_of_hasEnded hended start
  · exact hsooner m hm _ start hstops hfirst

private theorem endsOrSticks_deliver (hstopping : f.stopping = true) (hend : f.batchFirst k = false)
    (next : Nat) (batch : List ExchangeRate) (now : Nat) (o : Office) (start : Nat) :
    EndsOrSticks d w start ((f.deliver next batch).proceed d now o) := by
  rcases f.deliver_cases next batch with ⟨-, -, heq⟩ | ⟨-, -, heq⟩ | ⟨hreceiving, hroom, heq⟩
  · rw [heq]
    exact endsOrSticks_of_hasEnded rfl start
  · rw [heq, proceed_of_idle rfl]
    exact endsOrSticks_tick hsooner (f := { f with queue := f.queue ++ batch, phase := .idle next })
      hstopping hend now next o start
  · have hfull : (f.deliver next batch).room = 0 := room_deliver hreceiving hroom
    rw [heq] at hfull ⊢
    rw [proceed_of_not_idle rfl]
    exact ⟨0, .inr (beq_iff_eq.mpr hfull)⟩

private theorem endsOrSticks_wake (hstopping : f.stopping = true) (hend : f.batchFirst k = false)
    (next : Nat) (rest : Wakening (List ExchangeRate)) (o o' : Office) (now start : Nat) :
    EndsOrSticks d w start ((f.accept next (o.wake rest).1).proceed d now o') := by
  refine Office.wake_induction (Q := fun progress => ∀ (o' : Office) now start,
    EndsOrSticks d w start ((f.accept next progress).proceed d now o')) ?_ ?_ ?_ rest o o' now start
  · exact fun batch o' now start => endsOrSticks_deliver hsooner hstopping hend next batch now o' start
  · exact fun o' now start => endsOrSticks_of_hasEnded rfl start
  · intro wake rest hwake o' now start
    refine endsOrSticks_of_asleep (f := f.accept next (.asleep wake rest)) rfl ?_
    intro o o' now later
    rw [accept_asleep_accept]
    exact hwake o o' now later

end Sooner

/-- A feed that has been told to stop ends or gets stuck, whatever it is doing, if its end comes first
at some time. -/
theorem endsOrSticks_of_stopping {k : Nat} (hstopping : f.stopping = true)
    (hend : f.batchFirst k = false) (start : Nat) : EndsOrSticks d w start f := by
  induction k using Nat.strong_induction_on generalizing f start with
  | _ k ih =>
      have hsooner : ∀ m < k, ∀ (f : Feed) (start : Nat), f.stopping = true →
          f.batchFirst m = false → EndsOrSticks d w start f :=
        fun m hm f start hstopping hend => ih m hm hstopping hend start
      have hturn : ∀ {g : Feed}, (f.settle d (w.office start)).1 = g →
          EndsOrSticks d w (start + 1) g → EndsOrSticks d w start f := fun heq hg =>
        .of_turns (n := 1) (by rwa [turns, turns, heq])
      cases hphase : f.phase with
      | ended => exact endsOrSticks_of_hasEnded (hasEnded_iff.mpr hphase) start
      | idle due =>
          exact hturn (settle_of_idle_phase _ hphase)
            (endsOrSticks_tick hsooner hstopping hend _ due _ _)
      | pricing next wake rest =>
          exact endsOrSticks_of_asleep hphase fun o o' now later =>
            endsOrSticks_wake hsooner hstopping hend next rest o o' now later
      | delivering next rest =>
          exact hturn (settle_of_delivering _ hphase)
            (endsOrSticks_deliver hsooner hstopping hend next rest _ _ _)

/-! ### What fits is handed out -/

/-- Whether what a feed has in hand fits into its queue, and so many batches after it. -/
def FitsIn (f : Feed) (batches : Nat) : Prop := f.inHand + batches * f.pairs.length ≤ f.room

/-- A feed that has ended, or all of whose batches until its end comes first fit into its queue. -/
def HandsOut (f : Feed) : Prop :=
  f.hasEnded = true ∨ ∃ k, f.batchFirst k = false ∧ f.FitsIn k

private theorem inHand_of_idle {due : Nat} (hphase : f.phase = .idle due) : f.inHand = 0 := by
  rw [inHand, hphase]

private theorem fitsIn_deliver {k : Nat} (next : Nat) {batch : List ExchangeRate}
    (hroom : batch.length + k * f.pairs.length ≤ f.room) : (f.deliver next batch).FitsIn k := by
  rcases f.deliver_cases next batch with ⟨-, -, heq⟩ | ⟨-, -, heq⟩ | ⟨-, hmore, -⟩
  · rw [heq]
    change 0 + k * f.pairs.length ≤ f.room
    omega
  · rw [heq]
    unfold FitsIn
    rw [inHand_of_idle rfl]
    unfold room at hroom ⊢
    simp only [List.length_append]
    omega
  · omega

private theorem fitsIn_accept {k : Nat} (next : Nat)
    (hroom : f.pairs.length + k * f.pairs.length ≤ f.room) {progress : Progress (List ExchangeRate)}
    (hprogress : progress.Yields fun batch => batch.length ≤ f.pairs.length) :
    (f.accept next progress).FitsIn k := by
  cases progress with
  | finished batch =>
      have hbatch : batch.length ≤ f.pairs.length := hprogress
      exact fitsIn_deliver next ((Nat.add_le_add_right hbatch _).trans hroom)
  | crashed =>
      change 0 + k * f.pairs.length ≤ f.room
      omega
  | asleep wake rest => exact hroom

private theorem fitsIn_accept_perform {k : Nat} (next : Nat) (hroom : (k + 1) * f.pairs.length ≤ f.room)
    (o : Office) :
    (f.decided.accept next (o.perform (d.rates f.pairs)).1).FitsIn k := by
  refine fitsIn_accept next ?_ ?_
  · rw [pairs_decided, room_decided, Nat.add_comm, ← Nat.succ_mul]
    exact hroom
  · rw [pairs_decided]
    exact Office.yields_perform (d.yields_rates f.pairs) o

/-- By induction on the beats that the feed catches up with. -/
private theorem handsOut_tick (d : Desk) (now : Nat) (f : Feed) (due : Nat) (o : Office)
    (hstopping : f.stopping = true) {k : Nat} (hend : f.batchFirst k = false)
    (hroom : k * f.pairs.length ≤ f.room) : (f.tick d now due o).1.HandsOut := by
  fun_induction tick d now f due o generalizing k
  case case1 f due o hbatch progress o' hperform next g later hphase ih =>
    obtain ⟨m, rfl, hlater⟩ := exists_end_of_goesOn hstopping hbatch.2 hend
    have hfits := fitsIn_accept_perform (d := d) next hroom o
    have hfollows := f.follows_accept_perform d next o
    rw [hperform] at hfits hfollows
    refine ih (hfollows.stopping_eq.trans hstopping) (by rw [batchFirst_accept, hlater]) ?_
    have hroom' : g.inHand + m * g.pairs.length ≤ g.room := hfits
    rwa [inHand_of_idle hphase, Nat.zero_add] at hroom'
  case case2 f due o hbatch progress o' hperform next g hphase =>
    obtain ⟨m, rfl, hlater⟩ := exists_end_of_goesOn hstopping hbatch.2 hend
    have hfits := fitsIn_accept_perform (d := d) next hroom o
    rw [hperform] at hfits
    exact .inr ⟨m, by rw [batchFirst_accept, hlater], hfits⟩
  case case3 => exact .inl rfl
  case case4 hopen => exact absurd (isClosing_of_stopping hstopping) hopen

private theorem handsOut_proceed (now : Nat) (o : Office) (hstopping : f.stopping = true) {k : Nat}
    (hend : f.batchFirst k = false) (hfits : f.FitsIn k) : (f.proceed d now o).HandsOut := by
  cases hidle : f.isIdle with
  | true =>
      obtain ⟨due, hphase⟩ := isIdle_iff.mp hidle
      unfold FitsIn at hfits
      rw [inHand_of_idle hphase, Nat.zero_add] at hfits
      rw [proceed_of_idle hphase]
      exact handsOut_tick d now f due o hstopping hend hfits
  | false =>
      rw [proceed_of_not_idle hidle]
      exact .inr ⟨k, hend, hfits⟩

private theorem handsOut_settle (o : Office) (hf : f.IsSound) (hstopping : f.stopping = true)
    (hhands : f.HandsOut) : (f.settle d o).1.HandsOut := by
  rcases hhands with hended | ⟨k, hend, hfits⟩
  · rw [settle_of_hasEnded o hended]
    exact .inl hended
  · have hstops := (f.follows_resume o.ticks o).stopping_eq.trans hstopping
    have hend' : (f.resume o.ticks o).1.batchFirst k = false := by rw [batchFirst_resume, hend]
    rw [settle_eq_proceed]
    refine handsOut_proceed _ _ hstops hend' ?_
    have hphases := hf.fits
    unfold resume
    unfold FitsIn inHand at hfits
    split
    · next next wake rest hphase =>
        rw [hphase] at hphases hfits
        split
        · exact fitsIn_accept next hfits (Office.yields_wake hphases o)
        · unfold FitsIn inHand
          rw [hphase]
          exact hfits
    · next next rest hphase =>
        rw [hphase] at hfits
        exact fitsIn_deliver next hfits
    · exact hfits

private theorem handsOut_turns (hf : f.IsSound) (hstopping : f.stopping = true) (hhands : f.HandsOut)
    (start n : Nat) : (turns d w start n f).HandsOut := by
  induction n generalizing start f with
  | zero => exact hhands
  | succ n ih =>
      have hsettle := f.follows_settle d (w.office start)
      exact ih (hsettle.isSound hf) (hsettle.stopping_eq.trans hstopping)
        (handsOut_settle _ hf hstopping hhands) (start + 1)

theorem not_isStuck_of_hasEnded (hended : f.hasEnded = true) : f.isStuck = false := by
  rw [isStuck, isBlocked, hasEnded_iff.mp hended]
  rfl

private theorem not_isStuck_of_handsOut (hf : f.IsSound) (hhands : f.HandsOut) : f.isStuck = false := by
  rcases hhands with hended | ⟨k, -, hfits⟩
  · exact not_isStuck_of_hasEnded hended
  · refine Bool.eq_false_iff.mpr fun hstuck => ?_
    obtain ⟨next, rate, rest, hphase, hroom⟩ := exists_of_isStuck hf hstuck
    rw [FitsIn, inHand, hphase, hroom] at hfits
    exact Nat.not_succ_le_zero _ ((Nat.le_add_right _ _).trans hfits)

/-! ### Stopping -/

/-- A feed that has ended stays so, and one that is stuck does: both stay as they are. -/
theorem turns_of_final (hf : f.IsSound) (hreceiving : f.receiving = true) {start m n : Nat}
    (hmn : m ≤ n) (hfinal : (turns d w start m f).hasEnded = true ∨
      (turns d w start m f).isStuck = true) : turns d w start n f = turns d w start m f := by
  have hfollows := follows_turns (d := d) (w := w) f start m
  obtain ⟨k, rfl⟩ := Nat.exists_eq_add_of_le hmn
  rw [turns_add]
  apply turns_of_settle
  intro _ _
  rcases hfinal with hended | hstuck
  · exact settle_of_hasEnded _ hended
  · exact settle_of_isStuck _ (hfollows.isSound hf) (hfollows.receiving_eq.trans hreceiving) hstuck

private theorem not_isStuck_of_exists_hasEnded (hf : f.IsSound) (hreceiving : f.receiving = true)
    (hends : ∃ n, (turns d w 0 n f).hasEnded = true) (m : Nat) :
    (turns d w 0 m f).isStuck = false := by
  obtain ⟨n, hended⟩ := hends
  have hnot := not_isStuck_of_hasEnded hended
  cases hstuck : (turns d w 0 m f).isStuck with
  | false => rfl
  | true =>
      rcases Nat.le_total m n with hmn | hnm
      · rw [turns_of_final hf hreceiving hmn (.inr hstuck), hstuck] at hnot
        exact hnot
      · rw [turns_of_final hf hreceiving hnm (.inl hended), hnot] at hstuck
        exact hstuck.symm

private theorem exists_hasEnded_of_not_isStuck {k : Nat} (hstopping : f.stopping = true)
    (hend : f.batchFirst k = false) (hnever : ∀ n, (turns d w 0 n f).isStuck = false) :
    ∃ n, (turns d w 0 n f).hasEnded = true := by
  obtain ⟨n, hended | hstuck⟩ := endsOrSticks_of_stopping (d := d) (w := w) hstopping hend 0
  · exact ⟨n, hended⟩
  · rw [hnever n] at hstuck
    cases hstuck

/-- Whatever a subscription has been through, and whatever comes first, batches that are due or the
end: a feed that ends after it was told to stop is never found with a full queue and something left to
hand out. If it is never found so it ends, provided that the end comes first at some time; and it is
not where what it has in hand fits into its queue together with the `k` batches that can come before
the end does. A feed that waits for a beat still to come ends at its next turn. -/
theorem ends_after_stop_iff (d : Desk) (pairs : List CurrencyPair) (interval : Duration)
    (reader : Reader) (batchFirst : Nat → Bool) (tick : Nat) (acts : List Act) (w : World) :
    let f := (run d acts (start pairs interval reader batchFirst tick)).stopped
    ((∃ n, (turns d w 0 n f).hasEnded = true) → ∀ n, (turns d w 0 n f).isStuck = false) ∧
      (∀ k, batchFirst k = false →
        ((∀ n, (turns d w 0 n f).isStuck = false) → ∃ n, (turns d w 0 n f).hasEnded = true) ∧
          (f.inHand + k * pairs.length ≤ f.room → ∃ n, (turns d w 0 n f).hasEnded = true)) ∧
      ∀ due, f.phase = .idle due → Timer.nanosAt (w.office 0).ticks < due →
        (turns d w 0 1 f).hasEnded = true := by
  intro f
  obtain ⟨hpairs, -, hreceiving, hstopping, hfirst⟩ := start_eq pairs interval reader batchFirst tick
  obtain ⟨hrun, hreceives⟩ := isSound_run d acts (isSound_start pairs interval reader batchFirst tick)
  have hsound : f.IsSound := ⟨hrun.queue_le, hrun.fits⟩
  have hreceives' : f.receiving = true := hreceives.trans hreceiving
  have hpairs' : f.pairs = pairs := (pairs_run d acts _).trans hpairs
  have hfirst' : f.batchFirst = batchFirst :=
    (batchFirst_run_of_open d acts hreceiving hstopping).trans hfirst
  have hends : ∀ k, batchFirst k = false → (∀ n, (turns d w 0 n f).isStuck = false) →
      ∃ n, (turns d w 0 n f).hasEnded = true := fun k hend =>
    exists_hasEnded_of_not_isStuck (k := k) rfl (hfirst' ▸ hend)
  refine ⟨not_isStuck_of_exists_hasEnded hsound hreceives', fun k hend => ⟨hends k hend,
    fun hroom => hends k hend fun n => ?_⟩, fun due hphase hahead => ?_⟩
  · have hhands : f.HandsOut := .inr ⟨k, hfirst' ▸ hend, by rwa [FitsIn, hpairs']⟩
    exact not_isStuck_of_handsOut ((follows_turns f 0 n).isSound hsound)
      (handsOut_turns hsound rfl hhands 0 n)
  · rw [turns, turns, settle_of_idle_phase _ hphase,
      tick_of_end d (isClosing_of_stopping rfl) fun hdue => Nat.not_le.mpr hahead hdue.1]
    rfl

end Feed

/-! ### A batch that is too long -/

/-- An office with a scripted market in which a pair is set at par. -/
def Office.atPar (pair : CurrencyPair) (tick : Nat) : Office :=
  ⟨⟨0, tick⟩, .sound (.empty 1),
    .scripted ((ScriptedMarket.empty "mock").setRate pair .one .zero), 0⟩

def World.atPar (pair : CurrencyPair) : World where
  office := Office.atPar pair
  goes_on tick := ⟨tick, fun _ hm => hm⟩

private theorem Office.perform_rates_atPar (pair : CurrencyPair) (count : Nat) :
    ∃ shown o, (atPar pair 0).perform (Desk.standard.rates (List.replicate (count + 1) pair)) =
      (.finished shown, o) ∧ shown.length = count + 1 := by
  let m := (ScriptedMarket.empty "mock").setRate pair .one .zero
  have hread : (Clock.mk 0 0).read = .ok ⟨0, by decide⟩ := rfl
  have hstands : (atPar pair 0).Stands ⟨0, 0⟩
      (RunState.opening (Store.empty 1) (.scripted m)) := ⟨rfl, rfl, rfl, rfl, rfl⟩
  obtain ⟨o, hperform, -⟩ := perform_of_stands .standard hread
    (Desk.standard.rates (List.replicate (count + 1) pair)) hstands
  have hset : m.rates[pair]? = some (Decimal.one, Decimal.zero) :=
    Std.HashMap.getElem?_insert_self
  have hexpiry : (⟨0, by decide⟩ : Instant).add? ScriptedMarket.validity =
      some ⟨30000000000, by decide⟩ := by decide
  have hroom : (RunState.opening (PlainStore.mk 1 .empty) (Provider.scripted m)).store.map.count
      ⟨0, by decide⟩ < 1 := by
    rw [RunState.opening, TimedMap.count_empty]
    exact Nat.one_pos
  obtain ⟨shown, g, hserve, hlength⟩ := MarketDesk.serve_rates_standard
    (f := RunState.opening ⟨1, .empty⟩ (.scripted m)) rfl rfl hset hroom hexpiry count
  have hstep := RunState.inStep_opening 1 (Provider.scripted m) ⟨0, by decide⟩
  have hmatches := ((MarketDesk.ofProvider .standard).matches_serve
    ((MarketDesk.ofProvider .standard).desk.rates (List.replicate (count + 1) pair)) hstep).1
  have houtcome : ((MarketDesk.byClock .standard ⟨0, 0⟩).serve ⟨0, by decide⟩
      (Desk.standard.rates (List.replicate (count + 1) pair))
      (RunState.opening (Store.empty 1) (.scripted m))).1 = .ok shown :=
    hmatches.trans (congrArg Prod.fst hserve)
  refine ⟨shown, o, ?_, hlength⟩
  rw [hperform, houtcome]
  rfl

namespace Feed

def ofPair (pair : CurrencyPair) (count : Nat) (batchFirst : Nat → Bool) : Feed :=
  start (List.replicate count pair) (.ofMillis 1000) .subscriber batchFirst 0

theorem room_ofPair (pair : CurrencyPair) (count : Nat) (batchFirst : Nat → Bool) :
    (ofPair pair count batchFirst).room = 64 := rfl

theorem settle_ofPair (pair : CurrencyPair) (count : Nat) (batchFirst : Nat → Bool) :
    ∃ shown : List ExchangeRate, shown.length = count + 1 ∧
      ((ofPair pair (count + 1) batchFirst).settle .standard (.atPar pair 0)).1 =
        (ofPair pair (count + 1) batchFirst).deliver 1000000000 shown := by
  obtain ⟨shown, o, hperform, hlength⟩ := Office.perform_rates_atPar pair count
  refine ⟨shown, hlength, ?_⟩
  generalize hf : ofPair pair (count + 1) batchFirst = f
  have hpairs : f.pairs = List.replicate (count + 1) pair := by rw [← hf]; rfl
  have hphase : f.phase = .idle 0 := by rw [← hf]; rfl
  have hperiod : f.period = 1000000000 := by rw [← hf]; rfl
  have hnext : f.following 0 0 = 1000000000 := by
    rw [following, if_neg (by decide), hperiod, Nat.zero_add]
  have hreceiving : f.receiving = true := by rw [← hf]; rfl
  have hstopping : f.stopping = false := by rw [← hf]; rfl
  have hopen : f.isClosing = false := isClosing_of_open hreceiving hstopping
  have hticks : Timer.nanosAt (Office.atPar pair 0).ticks = 0 := Nat.mul_zero _
  have haccept : f.accept 1000000000 (.finished shown) = f.deliver 1000000000 shown := rfl
  rw [settle_of_idle_phase _ hphase, hticks,
    tick_of_due .standard (Nat.le_refl 0) (goesOn_of_open f hopen), decided_of_open f hopen, hpairs,
    hperform, hnext]
  simp only [haccept]
  rcases Nat.lt_or_ge f.room shown.length with hroom | hroom
  · simp only [deliver_of_no_room hreceiving hroom]
    rfl
  · simp only [deliver_of_room hreceiving hroom, isIdle, if_true]
    exact congrArg Prod.fst (tick_of_early .standard
      (f := { f with queue := f.queue ++ shown, phase := .idle 1000000000 }) hopen (by decide))

/-- A batch of sixty-five rates does not fit. A feed that is told to stop then never ends, as long as
its receiver is there and takes nothing. -/
theorem stuck_after_stop :
    let pair : CurrencyPair := ⟨⟨"EUR"⟩, ⟨"USD"⟩⟩
    let feed := fun batchFirst =>
      (run .standard [.turn (.atPar pair 0)] (ofPair pair 65 batchFirst)).stopped
    ∀ batchFirst : Nat → Bool,
      (feed batchFirst).stopping = true ∧ (feed batchFirst).receiving = true ∧ ∀ (w : World) (n : Nat),
        (turns .standard w 0 n (feed batchFirst)).isStuck = true ∧
          (turns .standard w 0 n (feed batchFirst)).hasEnded = false := by
  intro pair feed batchFirst
  obtain ⟨shown, hlength, hsettle⟩ := settle_ofPair pair 64 batchFirst
  have hstart : (ofPair pair 65 batchFirst).IsSound := isSound_start _ _ _ _ _
  obtain ⟨hrun, hreceiving⟩ := isSound_run .standard [.turn (.atPar pair 0)] hstart
  have hroom : (ofPair pair 65 batchFirst).room < shown.length := by
    rw [hlength, room_ofPair]
    decide
  have hfeed : feed batchFirst = ((ofPair pair 65 batchFirst).deliver 1000000000 shown).stopped :=
    congrArg stopped hsettle
  have hstuck : (feed batchFirst).isStuck = true := by
    have hfull : (Feed.deliver _ 1000000000 shown).room = 0 :=
      room_deliver (f := ofPair pair 65 batchFirst) rfl hroom
    rw [hfeed]
    rw [deliver_of_no_room rfl hroom] at hfull ⊢
    exact beq_iff_eq.mpr hfull
  have hsound : (feed batchFirst).IsSound := ⟨hrun.queue_le, hrun.fits⟩
  refine ⟨rfl, hreceiving, fun w n => ?_⟩
  have hsame : turns .standard w 0 n (feed batchFirst) = feed batchFirst :=
    turns_of_final (m := 0) hsound hreceiving (Nat.zero_le n) (.inr hstuck)
  rw [hsame]
  refine ⟨hstuck, Bool.eq_false_iff.mpr fun hended => ?_⟩
  rw [not_isStuck_of_hasEnded hended] at hstuck
  cases hstuck

/-- A batch of thirty-two rates fits, and another one after it; so a feed that is told to stop after the
first ends also where one more batch comes first. -/
theorem ends_after_stop_half_full :
    let pair : CurrencyPair := ⟨⟨"EUR"⟩, ⟨"USD"⟩⟩
    let f := (run .standard [.turn (.atPar pair 0)] (ofPair pair 32 (· == 0))).stopped
    f.batchFirst 0 = true ∧ f.room = 32 ∧
      ∃ n, (turns .standard (.atPar pair) 0 n f).hasEnded = true := by
  intro pair f
  obtain ⟨shown, hlength, hsettle⟩ := settle_ofPair pair 31 (· == 0)
  have hroom : shown.length ≤ (ofPair pair 32 (· == 0)).room := by
    rw [hlength, room_ofPair]
    decide
  have hfeed : f = ((ofPair pair 32 (· == 0)).deliver 1000000000 shown).stopped :=
    congrArg stopped hsettle
  rw [deliver_of_room rfl hroom] at hfeed
  have hroom' : f.room = 32 := by
    have hqueue : f.queue = shown := by
      rw [hfeed]
      rfl
    rw [room, hqueue, hlength]
    rfl
  have hinHand : f.inHand = 0 := by
    rw [hfeed]
    rfl
  obtain ⟨-, hends, -⟩ := ends_after_stop_iff .standard (List.replicate 32 pair) (.ofMillis 1000)
    .subscriber (· == 0) 0 [.turn (.atPar pair 0)] (.atPar pair)
  refine ⟨by rw [hfeed]; rfl, hroom', (hends 1 rfl).2 ?_⟩
  change f.inHand + 1 * (List.replicate 32 pair).length ≤ f.room
  rw [hinHand, hroom', List.length_replicate]

end Feed

end Bureau
