import Bureau.Proofs.Attempt
import Bureau.Time.Clock

/-!
What a clock has come to, whether it can be read or not.
-/

set_option autoImplicit false

namespace Bureau

open Attempt

namespace Clock

/-- The nanosecond that the clock has come to, whether it can be read or not. -/
def nanos (c : Clock) : Int := c.origin + c.ticks * 1000000

private theorem read_eq (c : Clock) :
    c.read = Crash.calendar.unless (if c.nanos < 0 then none else Instant.ofNanos? c.nanos) := rfl

theorem nanos_of_read {c : Clock} {now : Instant} (hread : c.read = .ok now) : now.nanos = c.nanos := by
  have hsome := unless_eq_ok hread
  split at hsome
  · cases hsome
  · unfold Instant.ofNanos? at hsome
    split at hsome
    · cases hsome
      rfl
    · cases hsome

private theorem exists_read_iff {c : Clock} :
    (∃ now, c.read = .ok now) ↔ 0 ≤ c.nanos ∧ c.nanos ≤ calendarEnd := by
  constructor
  · rintro ⟨now, hread⟩
    refine ⟨Int.not_lt.mp fun hneg => ?_, nanos_of_read hread ▸ now.inCalendar.2⟩
    rw [read_eq, if_pos hneg] at hread
    cases hread
  · rintro ⟨hstart, hend⟩
    have hin : calendarStart ≤ c.nanos ∧ c.nanos ≤ calendarEnd :=
      ⟨Int.le_trans (by decide) hstart, hend⟩
    refine ⟨⟨c.nanos, hin⟩, ?_⟩
    rw [read_eq, if_neg (Int.not_lt.mpr hstart), Instant.ofNanos?, dif_pos hin]
    rfl

/-- A clock that could be read before and can be read later can be read in between. -/
theorem exists_read_of_between {earlier c later : Clock} (hbefore : earlier.nanos ≤ c.nanos)
    (hafter : c.nanos ≤ later.nanos) (hearlier : ∃ now, earlier.read = .ok now)
    (hlater : ∃ now, later.read = .ok now) : ∃ now, c.read = .ok now :=
  exists_read_iff.mpr ⟨Int.le_trans (exists_read_iff.mp hearlier).1 hbefore,
    Int.le_trans hafter (exists_read_iff.mp hlater).2⟩

end Clock

end Bureau
