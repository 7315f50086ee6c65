/-!
Crews: the tasks in the background that listen for a signal to stop. A signal keeps its value once it
has been sent. A task knows how often the signal had been sent when it last looked, so that the next
one calls it and an old one does not.
-/

set_option autoImplicit false

namespace Bureau

/-- What a task is there for. -/
inductive Duty where
  /-- To purge the store, again and again after a number of nanoseconds. -/
  | reap (period : Nat)
  /-- To note the counts of the store, again and again after a number of nanoseconds. -/
  | report (period : Nat)
  /-- To take the rates of a feed for the journal. -/
  | read (feed : Nat)
deriving DecidableEq

def Duty.isReaping : Duty → Bool
  | .reap _ => true
  | _ => false

/-- A task in the background. -/
structure Task where
  duty : Duty
  /-- How many signals it knows of. -/
  seen : Nat
  running : Bool

/-- The signal that was sent last. -/
structure Signal where
  value : Bool
  /-- How many have been sent. -/
  sent : Nat

/-- The tasks that have been started, each known by its place, and the signal that they listen for. -/
structure Crew where
  tasks : List Task
  signal : Signal

namespace Crew

def empty : Crew := ⟨[], ⟨false, 0⟩⟩

def size (c : Crew) : Nat := c.tasks.length

def duty? (c : Crew) (id : Nat) : Option Duty :=
  (c.tasks[id]?).bind fun t => if t.running then some t.duty else none

def isRunning (c : Crew) (id : Nat) : Bool := (c.duty? id).isSome

/-- The crew with one more task, which waits for the next signal. -/
def hire (c : Crew) (duty : Duty) : Crew :=
  { c with tasks := c.tasks ++ [⟨duty, c.signal.sent, true⟩] }

def finish (c : Crew) (id : Nat) : Crew :=
  { c with tasks := c.tasks.modify id fun t => { t with running := false } }

def finishAll (c : Crew) (kind : Duty → Bool) : Crew :=
  { c with tasks := c.tasks.map fun t => if kind t.duty then { t with running := false } else t }

def running (c : Crew) : List Nat := (List.range c.size).filter c.isRunning

/-- Sends a signal. It counts only if there is a task to hear it. -/
def send (c : Crew) (value : Bool) : Crew :=
  if c.running = [] then c else { c with signal := ⟨value, c.signal.sent + 1⟩ }

def isCalled (c : Crew) (id : Nat) : Bool :=
  (c.tasks[id]?).any fun t => t.seen != c.signal.sent

def look (c : Crew) (id : Nat) : Crew :=
  { c with tasks := c.tasks.modify id fun t => { t with seen := c.signal.sent } }

end Crew

end Bureau
