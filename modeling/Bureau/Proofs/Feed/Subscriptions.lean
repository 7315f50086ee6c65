import Bureau.Proofs.Feed.Batches
import Bureau.Proofs.Feed.Closing

/-!
What a subscriber obtains. Whatever happens to a subscription, its receiver has obtained a beginning of
the batches of its feed, one after the other; what is missing waits in the queue and in hand. The feed
asks for no more batches than there have been beats, and after it was told to stop the receiver obtains
its batches to the end.
-/

set_option autoImplicit false

namespace Bureau

open Feed (Stride Strides IsPaced IsEager)

/-- A subscription: its feed, the rates that its receiver has obtained, and what the feed has noted. -/
structure Subscription where
  feed : Feed
  received : List ExchangeRate
  notes : List BatchNote

namespace Subscription

def opened (pairs : List CurrencyPair) (interval : Duration) (reader : Reader)
    (batchFirst : Nat → Bool) (tick : Nat) : Subscription :=
  ⟨.start pairs interval reader batchFirst tick, [], []⟩

def calls (s : Subscription) : List BatchCall := BatchNote.calls s.notes

def batches (s : Subscription) : List (List ExchangeRate) := BatchNote.batches s.notes

def step (d : Desk) (s : Subscription) (m : Feed.Move) : Subscription where
  feed := s.feed.move d m
  received := match m with
    | .act (.take count) => s.received ++ s.feed.queue.take count
    | _ => s.received
  notes := match m with
    | .act (.turn o) => s.notes ++ s.feed.settleNotes d o
    | _ => s.notes

def run (d : Desk) (course : List Feed.Move) (s : Subscription) : Subscription := course.foldl (step d) s

variable {d : Desk} {s : Subscription}

private theorem feed_run (d : Desk) (course : List Feed.Move) (s : Subscription) :
    (run d course s).feed = s.feed.moves d course := by
  induction course generalizing s with
  | nil => rfl
  | cons m rest ih => exact ih (s.step d m)

/-! ### What every move keeps -/

/-- A property of subscriptions that the strides of the feed keep, and the other moves too. -/
structure IsKept (d : Desk) (R : Subscription → Prop) : Prop where
  stride : ∀ {s : Subscription} {now : Nat} {notes : List BatchNote} {g : Feed}, R s →
    Stride d now s.feed notes g → R ⟨g, s.received, s.notes ++ notes⟩
  take : ∀ {s : Subscription} (count : Nat), R s → R (s.step d (.act (.take count)))
  stop : ∀ {s : Subscription}, R s → R (s.step d .stop)
  leave : ∀ {s : Subscription}, R s → R (s.step d .leave)

variable {R : Subscription → Prop}

private theorem IsKept.strides (h : IsKept d R) {now : Nat} {f g : Feed} {notes past : List BatchNote}
    {received : List ExchangeRate} (hstrides : Strides d now f notes g)
    (hpast : R ⟨f, received, past⟩) : R ⟨g, received, past ++ notes⟩ := by
  induction hstrides generalizing past with
  | rest f => rwa [List.append_nil]
  | step first others ih =>
      rw [← List.append_assoc]
      exact ih (h.stride hpast first)

theorem IsKept.step (h : IsKept d R) (hs : R s) (m : Feed.Move) : R (s.step d m) := by
  cases m with
  | act a =>
      cases a with
      | turn o => exact h.strides (Feed.strides_settle d s.feed o) hs
      | take count => exact h.take count hs
  | stop => exact h.stop hs
  | leave => exact h.leave hs

/-- By induction on what happens. -/
theorem IsKept.run (h : IsKept d R) (course : List Feed.Move) (hs : R s) : R (run d course s) := by
  induction course generalizing s with
  | nil => exact hs
  | cons m rest ih => exact ih (h.step hs m)

/-! ### Nothing is lost or repeated -/

/-- The receiver has obtained a beginning of the batches. While it is there, the rest of them waits
in the queue and in hand; once it has left, there is nothing more to obtain. -/
structure Delivers (s : Subscription) : Prop where
  isPrefix : s.received <+: s.batches.flatten
  rest_waits : s.feed.receiving = true →
    s.received ++ (s.feed.queue ++ s.feed.remaining) = s.batches.flatten
  left_empty : s.feed.receiving = false → s.feed.queue = []

private theorem Delivers.of_rest_waits (hreceiving : s.feed.receiving = true)
    (h : s.received ++ (s.feed.queue ++ s.feed.remaining) = s.batches.flatten) : s.Delivers where
  isPrefix := ⟨_, h⟩
  rest_waits _ := h
  left_empty hleft := by
    rw [hreceiving] at hleft
    cases hleft

private theorem delivers_stride {now : Nat} {notes : List BatchNote} {g : Feed} (hs : s.Delivers)
    (hstride : Stride d now s.feed notes g) : Delivers ⟨g, s.received, s.notes ++ notes⟩ := by
  have hbatches : batches ⟨g, s.received, s.notes ++ notes⟩ =
      s.batches ++ BatchNote.batches notes := BatchNote.batches_append _ _
  have hsame := hstride.sameFeed.receiving_eq
  cases hreceiving : s.feed.receiving with
  | true =>
      refine .of_rest_waits (hsame.trans hreceiving) ?_
      rw [hbatches, List.flatten_append, ← hs.rest_waits hreceiving, List.append_assoc]
      exact congrArg (s.received ++ ·) (hstride.queue_eq hreceiving)
  | false =>
      refine ⟨?_, fun hback => ?_, fun _ => ?_⟩
      · rw [hbatches, List.flatten_append]
        exact hs.isPrefix.trans (List.prefix_append _ _)
      · rw [hsame, hreceiving] at hback
        cases hback
      · exact (hstride.queue_of_dropped hreceiving).trans (hs.left_empty hreceiving)

private theorem delivers_take (hs : s.Delivers) (count : Nat) :
    (s.step d (.act (.take count))).Delivers := by
  cases hreceiving : s.feed.receiving with
  | true =>
      refine .of_rest_waits hreceiving ?_
      change s.received ++ s.feed.queue.take count ++ (s.feed.queue.drop count ++ s.feed.remaining) =
        s.batches.flatten
      rw [← hs.rest_waits hreceiving, List.append_assoc, ← List.append_assoc (List.take count _),
        List.take_append_drop]
  | false =>
      have hqueue := hs.left_empty hreceiving
      refine ⟨?_, fun hback => ?_, fun _ => ?_⟩
      · change s.received ++ s.feed.queue.take count <+: s.batches.flatten
        rw [hqueue, List.take_nil, List.append_nil]
        exact hs.isPrefix
      · cases hreceiving.symm.trans hback
      · change s.feed.queue.drop count = []
        rw [hqueue, List.drop_nil]

private theorem isKept_delivers (d : Desk) : IsKept d Delivers where
  stride := delivers_stride
  take count hs := delivers_take hs count
  stop hs := ⟨hs.isPrefix, hs.rest_waits, hs.left_empty⟩
  leave hs := ⟨hs.isPrefix, nofun, fun _ => rfl⟩

private theorem Delivers.received_eq (hs : s.Delivers) (hreceiving : s.feed.receiving = true)
    (hclosed : s.feed.isClosed = true) : s.received = s.batches.flatten := by
  rw [Feed.isClosed, Bool.and_eq_true, List.isEmpty_iff] at hclosed
  obtain ⟨hended, hqueue⟩ := hclosed
  have hremaining : s.feed.remaining = [] := by
    unfold Feed.hasEnded at hended
    unfold Feed.remaining
    split at hended
    · rename_i hphase
      rw [hphase]
    · cases hended
  rw [← hs.rest_waits hreceiving, hqueue, hremaining, List.append_nil, List.append_nil]

/-! ### Pricing and pace -/

/-- The batches of a subscription are results of asking for the rates of its pairs. -/
structure Prices (pairs : List CurrencyPair) (P : List ExchangeRate → Prop) (s : Subscription) :
    Prop where
  pairs_eq : s.feed.pairs = pairs
  prices : s.feed.Prices P
  batches : ∀ batch ∈ s.batches, P batch

private theorem isKept_prices {pairs : List CurrencyPair} {P : List ExchangeRate → Prop}
    (hrates : (d.rates pairs).Yields P) : IsKept d (Prices pairs P) where
  stride {s now notes g} hs hstride := by
    obtain ⟨hbatches, hprices⟩ := hstride.prices (by rwa [hs.pairs_eq]) hs.prices
    refine ⟨hstride.sameFeed.pairs_eq.trans hs.pairs_eq, hprices, fun batch hbatch => ?_⟩
    rw [Subscription.batches, BatchNote.batches_append] at hbatch
    rcases List.mem_append.mp hbatch with hpast | hnew
    · exact hs.batches batch hpast
    · exact hbatches batch hnew
  take _ hs := ⟨hs.pairs_eq, hs.prices, hs.batches⟩
  stop hs := ⟨hs.pairs_eq, hs.prices, hs.batches⟩
  leave hs := ⟨hs.pairs_eq, hs.prices, hs.batches⟩

/-- A subscription that asks for its batches at the pace of a period, and has got no more of them than
it has asked for. -/
structure Paces (period start : Nat) (s : Subscription) : Prop where
  period_eq : s.feed.period = period
  isPaced : IsPaced start s.feed s.calls
  count_le : s.batches.length + s.feed.making ≤ s.calls.length

private theorem isKept_paces (d : Desk) (period start : Nat) : IsKept d (Paces period start) where
  stride {s now notes g} hs hstride := by
    have hcalls : calls ⟨g, s.received, s.notes ++ notes⟩ = s.calls ++ BatchNote.calls notes :=
      BatchNote.calls_append _ _
    have hbatches : batches ⟨g, s.received, s.notes ++ notes⟩ =
        s.batches ++ BatchNote.batches notes := BatchNote.batches_append _ _
    refine ⟨hstride.sameFeed.period_eq.trans hs.period_eq, ?_, ?_⟩
    · rw [hcalls]
      exact hstride.isPaced hs.isPaced
    · have hmore := hstride.count_le
      have hpast := hs.count_le
      rw [hcalls, hbatches, List.length_append, List.length_append]
      simp only
      omega
  take _ hs := ⟨hs.period_eq, ⟨hs.isPaced.ascending, hs.isPaced.onBeat, hs.isPaced.next⟩, hs.count_le⟩
  stop hs := ⟨hs.period_eq, ⟨hs.isPaced.ascending, hs.isPaced.onBeat, hs.isPaced.next⟩, hs.count_le⟩
  leave hs := ⟨hs.period_eq, ⟨hs.isPaced.ascending, hs.isPaced.onBeat, hs.isPaced.next⟩, hs.count_le⟩

private theorem exists_turn_of_mem_calls {course : List Feed.Move} {call : BatchCall}
    (hcall : call ∈ (run d course s).calls) :
    call ∈ s.calls ∨ ∃ o, .act (.turn o) ∈ course ∧ call.now = Timer.nanosAt o.ticks := by
  induction course generalizing s with
  | nil => exact .inl hcall
  | cons m rest ih =>
      rcases ih hcall with hstep | ⟨o, ho, hnow⟩
      · cases m with
        | act a =>
            cases a with
            | turn o =>
                change call ∈ BatchNote.calls (s.notes ++ s.feed.settleNotes d o) at hstep
                rw [BatchNote.calls_append] at hstep
                rcases List.mem_append.mp hstep with hpast | hnew
                · exact .inl hpast
                · have hnow := (Feed.strides_settle d s.feed o).now_eq call hnew
                  exact .inr ⟨o, List.mem_cons_self, hnow⟩
            | take count => exact .inl hstep
        | stop => exact .inl hstep
        | leave => exact .inl hstep
      · exact .inr ⟨o, List.mem_cons_of_mem m ho, hnow⟩

/-! ### Subscriptions as a whole -/

section Opened

variable (pairs : List CurrencyPair) (reader : Reader) (batchFirst : Nat → Bool) (start : Nat)
  {interval : Duration} (hinterval : Duration.zero < interval)

include hinterval

private theorem timerNanos_pos : 0 < interval.timerNanos := Int.pos_iff_toNat_pos.mp hinterval

private theorem start_of_pos : Feed.start pairs interval reader batchFirst start =
    ⟨pairs, interval.timerNanos, timerNanos_pos hinterval, .idle (Timer.nanosAt start), [], reader, true,
      true, false, batchFirst⟩ := dif_pos _

private theorem delivers_opened : (opened pairs interval reader batchFirst start).Delivers := by
  rw [opened, start_of_pos pairs reader batchFirst start hinterval]
  exact .of_rest_waits rfl rfl

private theorem prices_opened (P : List ExchangeRate → Prop) :
    (opened pairs interval reader batchFirst start).Prices pairs P := by
  rw [opened, start_of_pos pairs reader batchFirst start hinterval]
  exact ⟨rfl, nofun, nofun⟩

private theorem paces_opened : (opened pairs interval reader batchFirst start).Paces interval.timerNanos
    (Timer.nanosAt start) := by
  rw [opened, start_of_pos pairs reader batchFirst start hinterval]
  refine ⟨rfl, ⟨.nil, nofun, fun next hnext => ?_⟩, Nat.le_refl 0⟩
  cases hnext
  exact ⟨⟨0, by rw [Nat.zero_mul, Nat.add_zero]⟩, nofun⟩

end Opened

private theorem stays_run {course : List Feed.Move} (hstays : .leave ∉ course) (hsound : s.feed.IsSound)
    (hreceiving : s.feed.receiving = true) :
    (run d course s).feed.IsSound ∧ (run d course s).feed.receiving = true := by
  induction course generalizing s with
  | nil => exact ⟨hsound, hreceiving⟩
  | cons m rest ih =>
      obtain ⟨hm, hrest⟩ := not_or.mp (mt List.mem_cons.mpr hstays)
      have hstep : (s.feed.move d m).IsSound ∧ (s.feed.move d m).receiving = true := by
        cases m with
        | act a =>
            exact ⟨Feed.isSound_act d hsound a, (s.feed.receiving_act d a).trans hreceiving⟩
        | stop => exact ⟨⟨hsound.queue_le, hsound.fits⟩, hreceiving⟩
        | leave => exact absurd rfl hm
      exact ih hrest hstep.1 hstep.2

/-- Once the feed has been told to stop, a receiver that goes on taking comes to its end if that comes
first at some time, and has then obtained its batches and nothing else. -/
theorem closes_after_stop (hs : s.Delivers) (hsound : s.feed.IsSound)
    (hreceiving : s.feed.receiving = true) {k : Nat} (hend : s.feed.batchFirst k = false)
    {future : Nat → Feed.Move} (hfuture : IsEager future) :
    ∃ n, let t := run d ((List.range n).map future) (s.step d .stop)
      t.feed.isClosed = true ∧ t.received = t.batches.flatten := by
  have hstopped := Feed.isStopped_stopped hsound hreceiving
  obtain ⟨n, hclosed⟩ := Feed.closes_of_isStopped (d := d) hstopped hend future hfuture
  have hstays : .leave ∉ (List.range n).map future := by
    intro hleave
    obtain ⟨k, -, hk⟩ := List.mem_map.mp hleave
    exact hfuture.stays k hk
  have hdelivers := (isKept_delivers d).run ((List.range n).map future)
    ((isKept_delivers d).step hs .stop)
  have hreceives := (stays_run (d := d) (s := s.step d .stop) hstays hstopped.isSound hreceiving).2
  have hclosed' : (run d ((List.range n).map future) (s.step d .stop)).feed.isClosed = true := by
    rw [feed_run]
    exact hclosed
  exact ⟨n, hclosed', hdelivers.received_eq hreceives hclosed'⟩

/-- Whatever happens to a subscription, and whatever comes first while a batch is due, its receiver has
obtained a beginning of the batches of its feed, each of which answers its pairs in the order they were
asked for. Within so many nanoseconds the feed asks for no more batches than there are beats. While the
receiver stays, nothing is missing but what waits in the queue and in hand; a feed that is told to stop
comes to its end where the receiver goes on and the end comes first at some time, and ends with the
last of a batch. -/
theorem delivers_whole_batches (d : Desk) (pairs : List CurrencyPair) {interval : Duration}
    (hinterval : Duration.zero < interval) (reader : Reader) (batchFirst : Nat → Bool) (start : Nat)
    (course : List Feed.Move) :
    let s := run d course (opened pairs interval reader batchFirst start)
    (s.received <+: s.batches.flatten ∧
      (∀ batch ∈ s.batches, ∃ shown : CurrencyPair → Option ExchangeRate,
        batch = pairs.filterMap shown) ∧
      ∀ P, (d.rates pairs).Yields P → ∀ batch ∈ s.batches, P batch) ∧
    (∀ nanos, (s.calls.filter fun call => call.now ≤ Timer.nanosAt start + nanos).length ≤
        nanos / interval.nanos.toNat + 1 ∧
      ((∀ o, .act (.turn o) ∈ course → Timer.nanosAt o.ticks ≤ Timer.nanosAt start + nanos) →
        s.batches.length ≤ nanos / interval.nanos.toNat + 1)) ∧
    (.leave ∉ course →
      s.received ++ (s.feed.queue ++ s.feed.remaining) = s.batches.flatten ∧
      (s.feed.isClosed = true → s.received = s.batches.flatten) ∧
      ∀ k, s.feed.batchFirst k = false → ∀ future, IsEager future →
        ∃ n, let t := run d ((List.range n).map future) (s.step d .stop)
          t.feed.isClosed = true ∧ t.received = t.batches.flatten) := by
  intro s
  have hdelivers : s.Delivers :=
    (isKept_delivers d).run course (delivers_opened pairs reader batchFirst start hinterval)
  have hprices : ∀ P, (d.rates pairs).Yields P → ∀ batch ∈ s.batches, P batch := fun P hP =>
    ((isKept_prices hP).run course (prices_opened pairs reader batchFirst start hinterval P)).batches
  have hpaces : s.Paces interval.timerNanos (Timer.nanosAt start) :=
    (isKept_paces d _ _).run course (paces_opened pairs reader batchFirst start hinterval)
  refine ⟨⟨hdelivers.isPrefix, hprices _ (d.yields_rates_in_order pairs), hprices⟩, fun nanos => ?_,
    fun hstays => ?_⟩
  · have hcalls := hpaces.isPaced.length_le nanos
    rw [hpaces.period_eq] at hcalls
    refine ⟨hcalls, fun hturns => ?_⟩
    have hall : (s.calls.filter fun call => call.now ≤ Timer.nanosAt start + nanos) = s.calls := by
      rw [List.filter_eq_self]
      intro call hcall
      rcases exists_turn_of_mem_calls hcall with hnone | ⟨o, ho, hnow⟩
      · exact absurd hnone List.not_mem_nil
      · rw [hnow]
        exact decide_eq_true (hturns o ho)
    rw [hall] at hcalls
    exact (Nat.le_of_add_right_le hpaces.count_le).trans hcalls
  · obtain ⟨hsound, hreceiving⟩ : s.feed.IsSound ∧ s.feed.receiving = true := by
      exact stays_run hstays (Feed.isSound_start pairs interval reader batchFirst start)
        (Feed.start_eq pairs interval reader batchFirst start).2.2.1
    exact ⟨hdelivers.rest_waits hreceiving, hdelivers.received_eq hreceiving,
      fun k hend future hfuture => closes_after_stop hdelivers hsound hreceiving hend hfuture⟩

def steadily (pair : CurrencyPair) (n : Nat) : Feed.Move :=
  if n % 2 = 0 then .act (.turn (.atPar pair n)) else .act (.take 1)

private theorem isEager_steadily (pair : CurrencyPair) : IsEager (steadily pair) where
  stays n := by
    unfold steadily
    split <;> exact nofun
  turns n tick := by
    refine ⟨2 * (n + tick), by omega, ?_⟩
    rw [steadily, if_pos (Nat.mul_mod_right 2 _)]
    change tick ≤ 2 * (n + tick)
    omega
  takes n := by
    refine ⟨2 * n + 1, by omega, ?_⟩
    rw [steadily, if_neg (by omega)]
    exact Nat.one_pos

/-- Sixty-five rates do not fit into the queue. After a turn and three rates taken the receiver still
obtains the whole batch, and another one if it comes first. -/
theorem delivers_whole_batches_long :
    let pair : CurrencyPair := ⟨⟨"EUR"⟩, ⟨"USD"⟩⟩
    let s := run .standard [.act (.turn (.atPar pair 0)), .act (.take 3)]
      (opened (List.replicate 65 pair) (.ofMillis 1000) .subscriber (· == 0) 0)
    s.received.length = 3 ∧ s.batches.flatten.length = 65 ∧ s.received <+: s.batches.flatten ∧
      ∃ n, let t := run .standard ((List.range n).map (steadily pair)) (s.step .standard .stop)
        t.feed.isClosed = true ∧ t.received = t.batches.flatten := by
  intro pair s
  obtain ⟨⟨hstart, -, -⟩, -, hstays⟩ := delivers_whole_batches .standard (List.replicate 65 pair)
    (by decide : Duration.zero < .ofMillis 1000) .subscriber (· == 0) 0
    [.act (.turn (.atPar pair 0)), .act (.take 3)]
  obtain ⟨hrest, -, hcloses⟩ := hstays (by
    intro hleave
    rcases List.mem_cons.mp hleave with hturn | htake
    · cases hturn
    · cases List.mem_singleton.mp htake)
  obtain ⟨shown, hlength, hsettle⟩ := Feed.settle_ofPair pair 64 (· == 0)
  generalize hfirst : ((Feed.ofPair pair (64 + 1) (· == 0)).settle .standard (.atPar pair 0)).1 = g
    at hsettle
  have hwaits : g.queue ++ g.remaining = shown := by
    rw [hsettle]
    exact Feed.queue_deliver rfl 1000000000 shown
  have hqueue : g.queue = shown.take 64 := by
    rw [hsettle, Feed.deliver_of_no_room rfl (by rw [hlength, Feed.room_ofPair]; decide)]
    rfl
  have hreceived : s.received = g.queue.take 3 := by
    rw [← hfirst]
    rfl
  have hfeed : s.feed.queue ++ s.feed.remaining = g.queue.drop 3 ++ g.remaining := by
    rw [← hfirst]
    rfl
  have hend : s.feed.batchFirst 1 = false := by
    have hsame : s.feed.batchFirst = g.batchFirst := by
      rw [← hfirst]
      rfl
    rw [hsame, hsettle, Feed.batchFirst_deliver]
    rfl
  refine ⟨?_, ?_, hstart, hcloses 1 hend (steadily pair) (isEager_steadily pair)⟩
  · rw [hreceived, hqueue, List.length_take, List.length_take, hlength]
    rfl
  · rw [← hrest, hfeed, hreceived, ← List.append_assoc, List.take_append_drop, hwaits, hlength]

end Subscription

end Bureau
