import Bureau.Error
import Bureau.Time.Timestamp

/-!
The clock: it starts at a time and moves in whole milliseconds. A time before 1970 or outside the
calendar cannot be read.
-/

set_option autoImplicit false

namespace Bureau

/-- A clock: the nanosecond at which it started, counted from 1970, and the milliseconds since. -/
structure Clock where
  origin : Int
  ticks : Nat
deriving DecidableEq

namespace Clock

def read (c : Clock) : Except Crash Instant :=
  let nanos := c.origin + c.ticks * 1000000
  Crash.calendar.unless (if nanos < 0 then none else Instant.ofNanos? nanos)

def setTicks (c : Clock) (ticks : Nat) : Clock := { c with ticks }

/-- The readings now and after each of several waits in milliseconds. -/
def readings (c : Clock) : List Nat → List (Except Crash Instant)
  | [] => [c.read]
  | wait :: rest => c.read :: readings (c.setTicks (c.ticks + wait)) rest

end Clock

end Bureau
