import Bureau.Power
import Bureau.Time.Timer

/-!
Signed lengths of time in nanoseconds, with the lengths that can be asked for in whole seconds or
milliseconds.
-/

set_option autoImplicit false

namespace Bureau

structure Duration where
  nanos : Int
deriving DecidableEq, Inhabited

namespace Duration

def zero : Duration := ⟨0⟩

/-- A length in milliseconds, without a check of its size. -/
def ofMillis (ms : Int) : Duration := ⟨ms * 1000000⟩

/-- A length in milliseconds; the least 64-bit number has none. -/
def millis? (ms : Int) : Option Duration :=
  if -(twoTo 63) < ms ∧ ms < twoTo 63 then some (ofMillis ms) else none

/-- A length in seconds, where its milliseconds fit 64 bits. -/
def seconds? (s : Int) : Option Duration :=
  if s.natAbs ≤ 9223372036854775 then some (ofMillis (s * 1000)) else none

/-- The whole seconds, cut off toward zero. -/
def wholeSeconds (d : Duration) : Int := d.nanos.tdiv 1000000000

/-- The whole milliseconds, cut off toward zero. -/
def wholeMillis (d : Duration) : Int := d.nanos.tdiv 1000000

/-- The nanoseconds that a timer waits: none for a negative length. -/
def timerNanos (d : Duration) : Nat := d.nanos.toNat

/-- The ticks of a millisecond that a timer waits when it is set at a tick. -/
def timerMillis (d : Duration) : Nat := Timer.tickFor d.timerNanos

instance : LT Duration := ⟨fun a b => a.nanos < b.nanos⟩
instance : LE Duration := ⟨fun a b => a.nanos ≤ b.nanos⟩
instance (a b : Duration) : Decidable (a < b) := inferInstanceAs (Decidable (_ < (_ : Int)))
instance (a b : Duration) : Decidable (a ≤ b) := inferInstanceAs (Decidable (_ ≤ (_ : Int)))

def min (a b : Duration) : Duration := if b < a then b else a

def max (a b : Duration) : Duration := if a < b then b else a

end Duration

end Bureau
