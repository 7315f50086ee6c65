import Bureau.Desk.Basic
import Bureau.Office.Background

/-!
Feeds: batches of rates at regular beats. A feed prices its pairs at each beat and puts the rates into
a queue of limited length; while the queue is full it waits, and beats that pass by meanwhile are
skipped. It ends when it is told to stop or nobody receives, but only between two batches. Where a
batch is due at the same time either may come first. Beats are in nanoseconds, and the rest of a feed
goes by ticks.
-/

set_option autoImplicit false

namespace Bureau

inductive FeedPhase where
  /-- It waits for its next beat. -/
  | idle (next : Nat)
  /-- It prices a batch and sleeps until a tick. -/
  | pricing (next wake : Nat) (rest : Wakening (List ExchangeRate))
  /-- It hands out a batch and waits for room. -/
  | delivering (next : Nat) (rest : List ExchangeRate)
  | ended

/-- Who takes the rates of a feed out of its queue. -/
inductive Reader where
  | subscriber
  | journal
deriving DecidableEq

structure Feed where
  pairs : List CurrencyPair
  /-- The nanoseconds from one batch to the next. -/
  period : Nat
  period_pos : 0 < period
  phase : FeedPhase
  /-- The rates that wait for the reader, oldest first. -/
  queue : List ExchangeRate
  reader : Reader
  /-- Whether the reader is still there. -/
  receiving : Bool
  /-- Whether the subscriber still holds the handle that can stop the feed. -/
  held : Bool
  /-- Whether the feed has been told to stop. -/
  stopping : Bool
  /-- What will turn out to come first, each time that a batch is due and the feed can end as well: the
  batch or the end. -/
  batchFirst : Nat → Bool

namespace Feed

def capacity : Nat := 64

/-- A feed whose first batch is due at a tick. Without time between its batches it ends at once. -/
def start (pairs : List CurrencyPair) (interval : Duration) (reader : Reader)
    (batchFirst : Nat → Bool) (tick : Nat) : Feed :=
  if h : 0 < interval.timerNanos then
    ⟨pairs, interval.timerNanos, h, .idle (Timer.nanosAt tick), [], reader, true, true, false,
      batchFirst⟩
  else ⟨pairs, 1, Nat.one_pos, .ended, [], reader, true, true, false, batchFirst⟩

/-- The beat after the one for `due` that comes `now`: one period later, or the first beat still to come
when it is late. -/
def following (f : Feed) (due now : Nat) : Nat :=
  if due + Timer.tolerance < now then Timer.nextBeat f.period due now else due + f.period

theorem lt_following (f : Feed) (due now : Nat) : due < f.following due now := by
  have hperiod := f.period_pos
  have hnext := Timer.lt_nextBeat hperiod due now
  unfold following
  split <;> omega

def room (f : Feed) : Nat := capacity - f.queue.length

def finish (f : Feed) : Feed := { f with phase := .ended }

def isClosing (f : Feed) : Bool := f.stopping || !f.receiving

/-- Whether a batch that is due comes first. -/
def goesOn (f : Feed) : Bool := !f.isClosing || f.batchFirst 0

/-- The feed once it has turned out what comes first, which it does where it can end. -/
def decided (f : Feed) : Feed :=
  if f.isClosing then { f with batchFirst := fun n => f.batchFirst (n + 1) } else f

/-- Hands out what there is room for of a batch; `next` is the beat of the batch after it. A feed finds
out that nobody receives when it has something to hand out. -/
def deliver (f : Feed) (next : Nat) (batch : List ExchangeRate) : Feed :=
  if !f.receiving && !batch.isEmpty then f.finish
  else
    { f with
      queue := f.queue ++ batch.take f.room
      phase := if batch.length ≤ f.room then .idle next else .delivering next (batch.drop f.room) }

def accept (f : Feed) (next : Nat) : Progress (List ExchangeRate) → Feed
  | .finished batch => f.deliver next batch
  | .crashed => f.finish
  | .asleep wake rest => { f with phase := .pricing next wake rest }

/-- Beats of a feed until it waits; `due` is its next one. -/
def tick (d : Desk) (now : Nat) (f : Feed) (due : Nat) (o : Office) : Feed × Office :=
  if due ≤ now ∧ f.goesOn then
    let (progress, o) := o.perform (d.rates f.pairs)
    let next := f.following due now
    let f' := f.decided.accept next progress
    match f'.phase with
    | .idle _ => tick d now f' next o
    | _ => (f', o)
  else if f.isClosing then (f.finish, o)
  else ({ f with phase := .idle due }, o)
termination_by now + 1 - due
decreasing_by
  have := f.lt_following due now
  omega

/-- Goes on at a tick with a feed that has been held up, as far as it can. -/
def resume (now : Nat) (f : Feed) (o : Office) : Feed × Office :=
  match f.phase with
  | .pricing next wake rest =>
      if wake ≤ now then
        let (progress, o) := o.wake rest
        (f.accept next progress, o)
      else (f, o)
  | .delivering next rest => (f.deliver next rest, o)
  | _ => (f, o)

def settle (d : Desk) (f : Feed) (o : Office) : Feed × Office :=
  let now := o.ticks
  let (f, o) := f.resume now o
  match f.phase with
  | .idle due => f.tick d (Timer.nanosAt now) due o
  | _ => (f, o)

def wake? (f : Feed) : Option Nat :=
  match f.phase with
  | .idle next => some (Timer.tickFor next)
  | .pricing _ wake _ => some wake
  | _ => none

def hasEnded (f : Feed) : Bool :=
  match f.phase with
  | .ended => true
  | _ => false

def isIdle (f : Feed) : Bool :=
  match f.phase with
  | .idle _ => true
  | _ => false

def isBlocked (f : Feed) : Bool :=
  match f.phase with
  | .delivering .. => true
  | _ => false

/-- How many rates the feed may have to hand out by a nanosecond: what is left of a batch, and a batch
for each beat that has come. -/
def backlog (f : Feed) (now : Nat) : Nat :=
  match f.phase with
  | .idle next | .pricing next _ _ | .delivering next _ =>
      f.pairs.length * (Timer.beats f.period next now + 1)
  | .ended => 0

def take? (f : Feed) : Option (ExchangeRate × Feed) :=
  match f.queue with
  | [] => none
  | rate :: rest => some (rate, { f with queue := rest })

/-- Whether nothing more will come: the feed has ended and its queue is empty. -/
def isClosed (f : Feed) : Bool := f.hasEnded && f.queue.isEmpty

end Feed

end Bureau
