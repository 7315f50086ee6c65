import Bureau.Feed.Basic
import Bureau.Host.Agenda
import Bureau.Host.Crew

/-!
The host: the desk with its office and what goes on in the background, namely feeds, readers that
take their rates for the journal, reapers that reclaim entries past their time and reporters that
note the counts of the store; the last three are tasks that can be told to stop. Background jobs run
one after the other, each until it waits; time passes from one tick of the agenda to the next. The
foreground goes on as soon as its own wait is over, before the jobs that fall due at the same tick.
-/

set_option autoImplicit false

namespace Bureau

/-- What is noted in the journal. -/
inductive Event where
  | rate (rate : ExchangeRate)
  | stats (stats : StoreStats)
  /-- A feed ended by itself. -/
  | closed

/-- A piece of background work. -/
inductive Job where
  /-- Does what a task is there for, and was due to do at a nanosecond. -/
  | work (task due : Nat)
  /-- Has a task look at the signal. -/
  | heed (task : Nat)
  /-- Runs a feed. -/
  | feed (index : Nat)
  /-- Takes the rates of a feed for the journal. -/
  | read (index : Nat)
deriving DecidableEq

structure Host where
  desk : Desk
  office : Office
  feeds : List Feed
  crew : Crew
  /-- The jobs that wait for a tick. -/
  agenda : Agenda Job
  /-- The jobs that can go on, in the order of their turns. -/
  ready : List Job
  /-- The events, newest first. -/
  journal : List Event

namespace Host

def quiet (desk : Desk) (office : Office) : Host := ⟨desk, office, [], .empty, .empty, [], []⟩

def ticks (h : Host) : Nat := h.office.ticks

/-- The nanosecond that the host has come to, counted from the time at which its clock started. -/
def nanos (h : Host) : Nat := Timer.nanosAt h.ticks

def mapStore (h : Host) (f : Store → Store) : Host :=
  let ⟨desk, ⟨clock, ⟨store, faults, calls⟩, provider, minted⟩, feeds, crew, agenda, ready, journal⟩ :=
    h
  ⟨desk, ⟨clock, ⟨f store, faults, calls⟩, provider, minted⟩, feeds, crew, agenda, ready, journal⟩

/-- The host with a job in line for its turn. A job that is in line already keeps its place. -/
def wake (h : Host) (job : Job) : Host :=
  if job ∈ h.ready then h else { h with ready := h.ready ++ [job] }

/-- The host with work that a task has to do at a later nanosecond. -/
def schedule (h : Host) (task due : Nat) : Host :=
  { h with agenda := h.agenda.add (Timer.tickFor due) (.work task due) }

/-- The host with one feed changed. A feed that waits notices the change if `noticed` holds of it. -/
def updateFeed (h : Host) (index : Nat) (f : Feed → Feed) (noticed : Feed → Bool) : Host :=
  let h := { h with feeds := h.feeds.modify index f }
  if (h.feeds[index]?).any noticed then h.wake (.feed index) else h

def employ (h : Host) (duty : Duty) : Host :=
  { h with crew := h.crew.hire duty, ready := h.ready ++ [.work h.crew.size h.nanos] }

def finish (h : Host) (task : Nat) : Host := { h with crew := h.crew.finish task }

/-- Sends the tasks a signal, which each of them looks at when it has its turn. -/
def send (h : Host) (value : Bool) : Host :=
  { h with crew := h.crew.send value, ready := h.ready ++ h.crew.running.map .heed }

def haveEnded (tasks : List Nat) (h : Host) : Bool := tasks.all fun task => !h.crew.isRunning task

/-! ### Jobs -/

/-- When a reaper that was due has to purge again: at the first beat still to come, or after a whole
period when it is late. -/
def reapingAfter (period due now : Nat) : Nat :=
  if due + Timer.tolerance < now then now + period else Timer.nextBeat period due now

/-- Purges the store. A reaper that cannot read the clock is lost. -/
def reap (h : Host) (task period due : Nat) : Host :=
  match h.office.clock.read with
  | .ok now => (h.mapStore (·.purge now)).schedule task (reapingAfter period due h.nanos)
  | .error _ => h.finish task

/-- Notes the counts of the store, once for each beat that has come. A reporter that cannot read the
clock is lost. -/
def report (h : Host) (task period due : Nat) : Host :=
  match h.office.clock.read with
  | .ok now =>
      let notes := List.replicate (Timer.beats period due h.nanos)
        (Event.stats (h.office.store.store.stats now))
      { h with journal := notes ++ h.journal }.schedule task (Timer.nextBeat period due h.nanos)
  | .error _ => h.finish task

def isJournalDue (f : Feed) : Bool := f.reader == .journal && (f.hasEnded || !f.queue.isEmpty)

/-- Runs a feed until it waits, and wakes its reader if there is something to read. -/
def runFeed (h : Host) (index : Nat) : Host :=
  let ⟨desk, office, feeds, crew, agenda, ready, journal⟩ := h
  match feeds[index]? with
  | none => ⟨desk, office, feeds, crew, agenda, ready, journal⟩
  | some f =>
      let (f, office) := f.settle desk office
      let agenda := agenda.without (· == .feed index)
      let agenda := match f.wake? with
        | some tick => agenda.add tick (.feed index)
        | none => agenda
      let h : Host := ⟨desk, office, feeds.set index f, crew, agenda, ready, journal⟩
      if isJournalDue f then h.wake (.read index) else h

/-- What the journal takes out of a feed, oldest first, and the feed without it. A feed that has ended
by itself is closed in the journal. A reader that has told its feed to stop takes nothing more, and is
gone when the feed has ended. -/
def collect (f : Feed) : List Event × Feed :=
  match f.reader with
  | .subscriber => ([], f)
  | .journal =>
      if !f.receiving then ([], f)
      else if f.stopping then
        ([], if f.hasEnded then { f with queue := [], receiving := false } else f)
      else if f.hasEnded then
        (f.queue.map .rate ++ [.closed], { f with queue := [], receiving := false })
      else (f.queue.map .rate, { f with queue := [] })

/-- Takes the rates of a feed for the journal, and wakes the feed if it waits for room. The reader has
ended once it has given up the feed. -/
def readFeed (h : Host) (index : Nat) : Host :=
  match h.feeds[index]? with
  | none => h
  | some f =>
      let (events, f') := collect f
      let gone := f.receiving && !f'.receiving
      let h := { h with
        feeds := h.feeds.set index f'
        crew := if gone then h.crew.finishAll (· == .read index) else h.crew
        journal := events.reverse ++ h.journal }
      if f'.isBlocked then h.wake (.feed index) else h

def work (h : Host) (task due : Nat) : Host :=
  match h.crew.duty? task with
  | some (.reap period) => h.reap task period due
  | some (.report period) => h.report task period due
  | some (.read index) => h.readFeed index
  | none => h

def stopFeed (f : Feed) : Feed :=
  match f.reader with
  | .subscriber => f
  | .journal => { f with stopping := true }

/-- The reader of a feed tells it to stop, and waits until it has ended. -/
def stopReading (h : Host) (index : Nat) : Host :=
  let h := h.updateFeed index stopFeed Feed.isIdle
  if (h.feeds[index]?).any Feed.hasEnded then h.wake (.read index) else h

/-- Has a task look at the signal, if there is one that it has not seen. A reaper ends only if the value
of the signal is true; any signal stops the others. -/
def heed (h : Host) (task : Nat) : Host :=
  match h.crew.duty? task with
  | none => h
  | some duty =>
      if h.crew.isCalled task then
        let h := { h with crew := h.crew.look task }
        match duty with
        | .reap _ => if h.crew.signal.value then h.finish task else h
        | .report _ => h.finish task
        | .read index => h.stopReading index
      else h

def perform (h : Host) : Job → Host
  | .work task due => h.work task due
  | .heed task => h.heed task
  | .feed index => h.runFeed index
  | .read index => h.readFeed index

/-- Does so many of the jobs in line. -/
def performReady : (turns : Nat) → Host → Host
  | 0, h => h
  | turns + 1, h =>
      match h.ready with
      | [] => h
      | job :: rest => performReady turns ({ h with ready := rest }.perform job)

/-- The turns after which every job waits: one for each job in line, and two for each rate that a
feed may hand to its reader. -/
def turns (h : Host) : Nat :=
  h.feeds.foldl (fun turns f => turns + 2 * f.backlog h.nanos + 2) h.ready.length

def settle (h : Host) : Host := performReady h.turns h

/-! ### Time -/

def reach (h : Host) (tick : Nat) : Host :=
  { h with
    office := h.office.setTicks tick
    agenda := h.agenda.later tick
    ready := h.ready ++ h.agenda.due tick }

/-- Lets time pass until a condition holds or a tick is reached. Everything before that tick is done;
what falls due at it is in line. -/
def advanceUntil (stop : Host → Bool) (target now : Nat) (h : Host) : Host :=
  let h := h.settle
  if stop h then h
  else
    match h.agenda.next? with
    | some tick =>
        if now < tick ∧ tick < target then advanceUntil stop target tick (h.reach tick)
        else h.reach target
    | none => h.reach target
termination_by target - now

def advanceTo (h : Host) (target : Nat) : Host :=
  if target ≤ h.ticks then h else advanceUntil (fun _ => false) target h.ticks h

end Host

/-! ### Actions of the foreground -/

/-- Why an errand ends without a result: a crash, or a wait of an hour. -/
inductive Halt where
  | crash (c : Crash)
  | hang
deriving DecidableEq

/-- An action of the foreground, on the state of the host, while the background goes on. It can crash
or hang; what it has done to the host by then stays done. -/
abbrev Errand (α : Type) := ExceptT Halt (StateM Host) α

namespace Errand

/-- The result of an errand, and the host once everything in the background waits again. -/
def runOn {α : Type} (errand : Errand α) (h : Host) : Except Halt α × Host :=
  let (outcome, h) := errand.run.run h
  (outcome, h.settle)

/-- The longest wait of an errand: an hour. -/
def patience : Nat := 3600000

def onOffice {α : Type} (operation : Attempt Office α) : Errand α := do
  let ⟨desk, office, feeds, crew, agenda, ready, journal⟩ ← get
  let (outcome, office) := operation.runOn office
  set (⟨desk, office, feeds, crew, agenda, ready, journal⟩ : Host)
  match outcome with
  | .ok a => return a
  | .error c => throw (.crash c)

def waitUntil (limit tick : Nat) : Errand Unit := do
  if tick ≤ limit then modify (·.advanceTo tick)
  else
    modify (·.advanceTo limit)
    throw .hang

def wait (milliseconds : Nat) : Errand Unit := do
  let now := (← get).ticks
  waitUntil (now + patience) (now + milliseconds)

/-- Waits for a number of milliseconds or until the deadline, whichever is earlier; also whether the
wait was in time. -/
def waitInTime (limit deadline wait : Nat) : Errand Bool := do
  let now := (← get).ticks
  if deadline ≤ now then return false
  else if now + wait ≤ deadline then
    waitUntil limit (now + wait)
    return true
  else
    waitUntil limit deadline
    return false

def call (limit deadline : Nat) (c : StoreCall) : Errand (Option c.Reply) := do
  match ← onOffice (Office.begin c) with
  | .answered reply => return some reply
  | .asked wait =>
      if wait = 0 then return some (← onOffice (Office.ask c))
      else if ← waitInTime limit deadline wait then return some (← onOffice (Office.ask c))
      else return none
  | .held wait reply =>
      if wait = 0 then return some reply
      else return if ← waitInTime limit deadline wait then some reply else none

def patientCall (limit : Nat) (c : StoreCall) : Errand c.Reply := do
  match ← onOffice (Office.begin c) with
  | .answered reply => return reply
  | .asked wait =>
      waitUntil limit ((← get).ticks + wait)
      onOffice (Office.ask c)
  | .held wait reply =>
      waitUntil limit ((← get).ticks + wait)
      return reply

def handler (limit : Nat) : Program.Handler Errand where
  crash c := throw (.crash c)
  clock := onOffice Office.readClock
  deadline wait := onOffice (Office.deadline wait)
  call := call limit
  price pair := onOffice (Office.price pair)
  priceAll pairs := onOffice (Office.priceAll pairs)
  mint := onOffice Office.mint

def serve {α : Type} (p : Program α) : Errand α := do
  p.run (handler ((← get).ticks + patience))

/-- Asks the provider for the rate of a pair a number of times and waits after each. -/
def sample (limit : Nat) (pair : CurrencyPair) (wait : Nat) :
    (count : Nat) → ExceptT FxError Errand (List Rate)
  | 0 => return []
  | count + 1 => do
      let rate ← ExceptT.mk (onOffice (Office.price pair))
      ExceptT.lift (do waitUntil limit ((← get).ticks + wait))
      return rate :: (← sample limit pair wait count)

def samples (pair : CurrencyPair) (wait count : Nat) : ExceptT FxError Errand (List Rate) := do
  sample ((← get).ticks + patience) pair wait count

/-- Waits until some tasks have ended, or gives up after an hour. -/
def join (tasks : List Nat) : Errand Unit := do
  modify fun h => h.advanceUntil (Host.haveEnded tasks) (h.ticks + patience) h.ticks
  if !(← get).haveEnded tasks then throw .hang

def inquire {α : Type} (q : Query α) : Errand α := do
  let limit := (← get).ticks + patience
  q.run (onOffice Office.readClock) (patientCall limit)

end Errand

end Bureau
