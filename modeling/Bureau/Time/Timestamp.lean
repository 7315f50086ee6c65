import Bureau.Time.Duration

/-!
Points in time. An `Instant` is a reading of the clock; a `Timestamp` is a time written in a
document, which may lie inside a leap second. Both stay in the calendar from the year −262143 to the
year 262142.
-/

set_option autoImplicit false

namespace Bureau

/-- The first nanosecond of the calendar, counted from 1970. -/
def calendarStart : Int := -96465292 * 86400 * 1000000000

/-- The last nanosecond of the calendar, counted from 1970. -/
def calendarEnd : Int := 95026237 * 86400 * 1000000000 - 1

/-- A reading of the clock, in nanoseconds from 1970. -/
structure Instant where
  nanos : Int
  inCalendar : calendarStart ≤ nanos ∧ nanos ≤ calendarEnd
deriving DecidableEq

namespace Instant

/-- The instant with a number of nanoseconds, inside the calendar. -/
def ofNanos? (n : Int) : Option Instant :=
  if h : calendarStart ≤ n ∧ n ≤ calendarEnd then some ⟨n, h⟩ else none

instance : LT Instant := ⟨fun a b => a.nanos < b.nanos⟩
instance : LE Instant := ⟨fun a b => a.nanos ≤ b.nanos⟩
instance (a b : Instant) : Decidable (a < b) := inferInstanceAs (Decidable (_ < (_ : Int)))
instance (a b : Instant) : Decidable (a ≤ b) := inferInstanceAs (Decidable (_ ≤ (_ : Int)))

/-- The instant a length of time later, inside the calendar. -/
def add? (t : Instant) (d : Duration) : Option Instant := ofNanos? (t.nanos + d.nanos)

def since (t earlier : Instant) : Duration := ⟨t.nanos - earlier.nanos⟩

end Instant

/-- A time of a document. A leap second repeats the last second of its minute, with `leap` set. -/
structure Timestamp where
  nanos : Int
  leap : Bool
  inCalendar : calendarStart ≤ nanos ∧ nanos ≤ calendarEnd
  leap_second : leap = true → nanos / 1000000000 % 60 = 59
deriving DecidableEq

namespace Timestamp

def ofInstant (t : Instant) : Timestamp := ⟨t.nanos, false, t.inCalendar, by simp⟩

instance : Coe Instant Timestamp := ⟨ofInstant⟩

/-- The time with a number of nanoseconds from 1970, where the calendar has it. -/
def make? (nanos : Int) (leap : Bool) : Option Timestamp :=
  if h : (calendarStart ≤ nanos ∧ nanos ≤ calendarEnd) ∧
      (leap = true → nanos / 1000000000 % 60 = 59) then
    some ⟨nanos, leap, h.1, h.2⟩
  else
    none

/-- The whole seconds from 1970; a leap second counts as the one before it. -/
def second (t : Timestamp) : Int := t.nanos / 1000000000

/-- The nanoseconds since that second began: below one second, or below two in a leap second. -/
def fraction (t : Timestamp) : Int :=
  t.nanos % 1000000000 + if t.leap then 1000000000 else 0

instance : LT Timestamp :=
  ⟨fun a b => a.second < b.second ∨ (a.second = b.second ∧ a.fraction < b.fraction)⟩
instance (a b : Timestamp) : Decidable (a < b) :=
  inferInstanceAs (Decidable (_ < (_ : Int) ∨ (_ = (_ : Int) ∧ _ < (_ : Int))))

/-- The time a length later. Leaving a leap second forward skips it; leaving it backward counts
it. -/
def add? (t : Timestamp) (d : Duration) : Option Timestamp :=
  let moved := t.nanos % 1000000000 + d.nanos
  if t.leap = false ∨ 1000000000 ≤ moved then make? (t.nanos + d.nanos) false
  else if 0 ≤ moved then make? (t.nanos + d.nanos) true
  else make? (t.nanos + 1000000000 + d.nanos) false

/-- The time from `b` to `a`. A leap second counts when it lies before the other time of day. -/
def since (a b : Timestamp) : Duration :=
  let timeOfDay := fun t : Timestamp => t.second % 86400
  let adjust : Int :=
    if timeOfDay b < timeOfDay a then (if b.leap then 1 else 0)
    else if timeOfDay a < timeOfDay b then (if a.leap then -1 else 0)
    else 0
  ⟨(a.second - b.second + adjust) * 1000000000 + (a.fraction - b.fraction)⟩

def isReached (t : Timestamp) (now : Instant) : Bool := !decide ((now : Timestamp) < t)

end Timestamp

end Bureau
