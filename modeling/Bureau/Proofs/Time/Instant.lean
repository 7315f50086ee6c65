import Bureau.Time.Calendar
import Bureau.Time.Timestamp
import Mathlib.Tactic.SplitIfs

/-!
Instants as timestamps: comparing them, moving them and measuring between them is arithmetic on
their nanoseconds.
-/

set_option autoImplicit false

namespace Bureau

namespace Instant

theorem le_refl (a : Instant) : a ≤ a := Int.le_refl _

theorem le_trans {a b c : Instant} (hab : a ≤ b) (hbc : b ≤ c) : a ≤ c := Int.le_trans hab hbc

def first : Instant := ⟨calendarStart, by decide⟩

theorem first_le (t : Instant) : first ≤ t := t.inCalendar.1

theorem lt_of_le_of_lt {a b c : Instant} (hab : a ≤ b) (hbc : b < c) : a < c :=
  Int.lt_of_le_of_lt hab hbc

def Ascending (times : List Instant) : Prop := times.Pairwise (· ≤ ·)

instance (times : List Instant) : Decidable (Ascending times) :=
  inferInstanceAs (Decidable (times.Pairwise (· ≤ ·)))

private theorem eq_of_nanos_eq {a b : Instant} (h : a.nanos = b.nanos) : a = b := by
  cases a
  cases b
  cases h
  rfl

theorem add?_eq_some_iff {t u : Instant} {d : Duration} :
    t.add? d = some u ↔ u.nanos = t.nanos + d.nanos := by
  unfold add? ofNanos?
  split
  · constructor
    · intro h
      cases h
      rfl
    · intro h
      exact congrArg some (eq_of_nanos_eq h.symm)
  · rename_i hout
    constructor
    · intro h
      cases h
    · intro h
      exact absurd (h ▸ u.inCalendar) hout

theorem add?_since (later now : Instant) : now.add? (later.since now) = some later := by
  rw [add?_eq_some_iff]
  change later.nanos = now.nanos + (later.nanos - now.nanos)
  omega

theorem since_of_add?_eq_some {t u : Instant} {d : Duration} (h : t.add? d = some u) :
    u.since t = d := by
  rw [add?_eq_some_iff] at h
  have hnanos : u.nanos - t.nanos = d.nanos := by omega
  rw [since, hnanos]

theorem le_since_of_le {now t u : Instant} {d : Duration} (h : d ≤ now.since u) (hle : t ≤ u) :
    d ≤ now.since t := by
  change d.nanos ≤ now.nanos - u.nanos at h
  change t.nanos ≤ u.nanos at hle
  change d.nanos ≤ now.nanos - t.nanos
  omega

theorem add?_add? {t u : Instant} {d : Duration} (h : t.add? d = some u) (e : Duration) :
    u.add? e = t.add? ⟨d.nanos + e.nanos⟩ := by
  rw [add?_eq_some_iff] at h
  simp only [add?, h, Int.add_assoc]

theorem exists_add? {t : Instant} {d : Duration} (hstart : 0 ≤ d.nanos)
    (hend : t.nanos + d.nanos ≤ calendarEnd) : ∃ u, t.add? d = some u := by
  have hin : calendarStart ≤ t.nanos + d.nanos ∧ t.nanos + d.nanos ≤ calendarEnd := by
    have ht := t.inCalendar.1
    exact ⟨by omega, hend⟩
  exact ⟨⟨t.nanos + d.nanos, hin⟩, dif_pos hin⟩

def yearTenThousand : Int := Date.dayNumber ⟨10000, 1, 1⟩ * 86400 * 1000000000

def IsFourDigit (t : Instant) : Prop := t.nanos < yearTenThousand

/-- A quarter of a million years, which the calendar still has after the year 9999. -/
def longest : Duration := ⟨250000 * 365 * 86400 * 1000000000⟩

theorem yearTenThousand_add_longest_le : yearTenThousand + longest.nanos ≤ calendarEnd := by decide

theorem IsFourDigit.exists_add? {t : Instant} (h : t.IsFourDigit) {d : Duration} (h0 : 0 ≤ d.nanos)
    (hle : d ≤ longest) : ∃ u, t.add? d = some u := by
  have hend := yearTenThousand_add_longest_le
  unfold IsFourDigit at h
  change d.nanos ≤ longest.nanos at hle
  exact Instant.exists_add? h0 (by omega)

end Instant

namespace Timestamp

private theorem second_ofInstant (t : Instant) : (ofInstant t).second = t.nanos / 1000000000 := rfl

private theorem fraction_ofInstant (t : Instant) : (ofInstant t).fraction = t.nanos % 1000000000 := by
  simp [fraction, ofInstant]

private theorem ofInstant_lt_iff (a b : Instant) : ofInstant a < ofInstant b ↔ a.nanos < b.nanos := by
  change _ < (_ : Int) ∨ (_ = (_ : Int) ∧ _ < (_ : Int)) ↔ _
  rw [second_ofInstant, second_ofInstant, fraction_ofInstant, fraction_ofInstant]
  omega

theorem isReached_ofInstant (t now : Instant) :
    (ofInstant t).isReached now = decide (t.nanos ≤ now.nanos) := by
  simp only [isReached, ofInstant_lt_iff, ← decide_not, Int.not_lt]

theorem isReached_of_le {t : Timestamp} {now later : Instant} (hle : now.nanos ≤ later.nanos)
    (h : t.isReached now = true) : t.isReached later = true := by
  simp only [isReached, Bool.not_eq_true', decide_eq_false_iff_not] at h ⊢
  intro hlt
  apply h
  change _ < (_ : Int) ∨ (_ = (_ : Int) ∧ _ < (_ : Int)) at hlt
  change _ < (_ : Int) ∨ (_ = (_ : Int) ∧ _ < (_ : Int))
  rw [second_ofInstant, fraction_ofInstant] at hlt ⊢
  omega

theorem add?_ofInstant (t : Instant) (d : Duration) :
    (ofInstant t).add? d = (t.add? d).map ofInstant := by
  have hmake : (ofInstant t).add? d = make? (t.nanos + d.nanos) false := by
    unfold add?
    exact if_pos (Or.inl rfl)
  rw [hmake]
  unfold make? Instant.add? Instant.ofNanos?
  split
  · rename_i hin
    rw [dif_pos hin.1]
    rfl
  · rename_i hout
    rw [dif_neg fun hin => hout ⟨hin, fun h => by cases h⟩]
    rfl

theorem since_ofInstant (a b : Instant) : (ofInstant a).since (ofInstant b) = a.since b := by
  have hleap : ∀ t : Instant, (ofInstant t).leap = false := fun _ => rfl
  simp only [since, hleap, Bool.false_eq_true, if_false, ite_self, second_ofInstant,
    fraction_ofInstant, Instant.since, Duration.mk.injEq]
  omega

theorem zero_lt_since {t : Timestamp} {now : Instant} (h : (now : Timestamp) < t) :
    Duration.zero < t.since now := by
  change (ofInstant now).second < t.second ∨
    ((ofInstant now).second = t.second ∧ (ofInstant now).fraction < t.fraction) at h
  have hnow : (ofInstant now).fraction = now.nanos % 1000000000 := fraction_ofInstant now
  have hleap : (ofInstant now).leap = false := rfl
  have ht : t.fraction = t.nanos % 1000000000 + if t.leap then 1000000000 else 0 := rfl
  change 0 < (t.since (ofInstant now)).nanos
  simp only [since, hleap, Bool.false_eq_true, if_false]
  -- Only a leap second of another time of day is counted off, and its fraction has a second more.
  cases hl : t.leap <;> rw [hl] at ht <;>
    simp only [Bool.false_eq_true, if_false, if_true] at ht ⊢ <;> split_ifs <;> omega

end Timestamp

end Bureau
