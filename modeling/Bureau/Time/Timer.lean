/-!
Timers. The clock moves in ticks of a millisecond, while timers count nanoseconds from the time at which
it started: what is due between two ticks comes with the later one.
-/

set_option autoImplicit false

namespace Bureau.Timer

/-- The nanosecond of a tick. -/
def nanosAt (tick : Nat) : Nat := 1000000 * tick

/-- The first tick that is not before a nanosecond. -/
def tickFor (nanos : Nat) : Nat := nanos / 1000000 + if nanos % 1000000 = 0 then 0 else 1

/-- How many nanoseconds late something may come before it has missed its time. -/
def tolerance : Nat := 5000000

/-- The beats of a rhythm from one that is due to the present one. -/
def beats (period due now : Nat) : Nat := (now - due) / period + 1

/-- The first beat after the present time. -/
def nextBeat (period due now : Nat) : Nat := due + beats period due now * period

theorem nanosAt_le_nanosAt {earlier later : Nat} (h : earlier ≤ later) :
    nanosAt earlier ≤ nanosAt later :=
  Nat.mul_le_mul_left 1000000 h

theorem tickFor_le_iff {nanos tick : Nat} : tickFor nanos ≤ tick ↔ nanos ≤ nanosAt tick := by
  unfold tickFor nanosAt
  split <;> omega

theorem lt_nextBeat {period : Nat} (hperiod : 0 < period) (due now : Nat) :
    now < nextBeat period due now := by
  have hdiv := Nat.div_add_mod (now - due) period
  have hmod := Nat.mod_lt (now - due) hperiod
  unfold nextBeat beats
  rw [Nat.add_mul, Nat.one_mul, Nat.mul_comm]
  omega

theorem nextBeat_le {period due now : Nat} (hdue : due ≤ now) :
    nextBeat period due now ≤ now + period := by
  have hdiv := Nat.div_mul_le_self (now - due) period
  unfold nextBeat beats
  rw [Nat.add_mul, Nat.one_mul]
  omega

end Bureau.Timer
