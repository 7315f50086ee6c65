import Bureau.Host.Basic

/-!
Reapers: background routines that reclaim entries past their time.
-/

set_option autoImplicit false

namespace Bureau.Host

/-- Adds a reaper whose first purge is due at once; there is at least a millisecond between two. -/
def addReaper (h : Host) (interval : Duration) : Host :=
  h.employ (.reap (Nat.max 1000000 interval.timerNanos))

/-- Ends the reapers, as when nobody is left who could send them a signal. -/
def stopReapers (h : Host) : Host := { h with crew := h.crew.finishAll Duty.isReaping }

def startReaper (h : Host) (interval : Duration) : Host := h.stopReapers.addReaper interval

/-- Sends the signal to stop or the signal to go on, and lets it be seen. -/
def signalReapers (h : Host) (stop : Bool) : Host := (h.send stop).settle

def reapersEnded (h : Host) : Bool :=
  h.crew.tasks.all fun t => !(t.running && t.duty.isReaping)

end Bureau.Host
