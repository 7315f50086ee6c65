import Bureau.Proofs.Desk.Standard
import Bureau.Proofs.Program.Results

/-!
How long a lock lives. A request in seconds is granted as it is asked for, up to the greatest length,
with one exception: where the greatest length is not in whole seconds, a request of its whole seconds is
granted all of it. Every lock that is given lives as long as its request was granted.
-/

set_option autoImplicit false

namespace Bureau

open Attempt

/-! ### Requests in seconds -/

/-- The greatest length there is: its milliseconds just fit 64 bits. -/
def Duration.greatest : Duration := ofMillis (twoTo 63 - 1)

namespace Duration

theorem le_antisymm {a b : Duration} (hab : a ≤ b) (hba : b ≤ a) : a = b :=
  congrArg mk (Int.le_antisymm hab hba)

private theorem wholeSeconds_lt_iff {d : Duration} {seconds : Int} (hpos : 0 < seconds) :
    d.wholeSeconds < seconds ↔ d < ofMillis (seconds * 1000) := by
  change d.nanos.tdiv 1000000000 < seconds ↔ d.nanos < seconds * 1000 * 1000000
  rcases Int.le_total 0 d.nanos with hnonneg | hneg
  · rw [Int.tdiv_eq_ediv_of_nonneg hnonneg]
    omega
  · have hmirror : d.nanos.tdiv 1000000000 = -((-d.nanos) / 1000000000) := by
      rw [← Int.tdiv_eq_ediv_of_nonneg (by omega), Int.neg_tdiv, Int.neg_neg]
    omega

theorem le_greatest_of_add? {now last : Instant} {d : Duration} (h : now.add? d = some last) :
    d ≤ greatest := by
  have hstart := now.inCalendar.1
  have hend := last.inCalendar.2
  have hgreatest : calendarEnd - calendarStart ≤ greatest.nanos := by decide
  rw [Instant.add?_eq_some_iff] at h
  change d.nanos ≤ greatest.nanos
  omega

private theorem seconds?_of_le_greatest {seconds : Int} (hpos : 0 < seconds)
    (h : ofMillis (seconds * 1000) ≤ greatest) :
    seconds? seconds = some (ofMillis (seconds * 1000)) := by
  have hnanos : seconds * 1000 * 1000000 ≤ (twoTo 63 - 1) * 1000000 := h
  have hpower : twoTo 63 = 9223372036854775808 := by decide
  rw [hpower] at hnanos
  exact if_pos (by omega)

end Duration

namespace LockTerms

/-- The length that a request asks for: the default for none, else its seconds up to the maximum. -/
def asked (terms : LockTerms) (seconds : Int) : Duration :=
  if seconds ≤ 0 then terms.defaultLength
  else (Duration.ofMillis (seconds * 1000)).min terms.maxLength

/-- A request stops short of the greatest length by a part of a second. -/
structure StopsShort (terms : LockTerms) (seconds : Int) : Prop where
  pos : 0 < seconds
  whole : terms.maxLength.wholeSeconds = seconds
  short : Duration.ofMillis (seconds * 1000) < terms.maxLength

private theorem asked_of_nonpos (terms : LockTerms) {seconds : Int} (h : seconds ≤ 0) :
    terms.asked seconds = terms.defaultLength := if_pos h

private theorem asked_eq_maxLength {terms : LockTerms} {seconds : Int} (hpos : 0 < seconds)
    (h : terms.maxLength ≤ Duration.ofMillis (seconds * 1000)) :
    terms.asked seconds = terms.maxLength := by
  rw [asked, if_neg (Int.not_le.mpr hpos), Duration.min]
  split_ifs with hlt
  · rfl
  · exact Duration.le_antisymm (Int.not_lt.mp hlt) h

private theorem asked_eq_seconds {terms : LockTerms} {seconds : Int} (hpos : 0 < seconds)
    (h : Duration.ofMillis (seconds * 1000) ≤ terms.maxLength) :
    terms.asked seconds = Duration.ofMillis (seconds * 1000) := by
  rw [asked, if_neg (Int.not_le.mpr hpos), Duration.min]
  exact if_neg (Int.not_lt.mpr h)

/-- What a request is granted: the length it asks for, or the greatest one if it stops short of it. -/
theorem clampLength_eq {terms : LockTerms} (hmax : terms.maxLength ≤ Duration.greatest)
    (seconds : Int) :
    (¬ terms.StopsShort seconds ∧ terms.clampLength seconds = .ok (terms.asked seconds)) ∨
      (terms.StopsShort seconds ∧ terms.clampLength seconds = .ok terms.maxLength) := by
  unfold clampLength
  split_ifs with hnone hwhole
  · refine .inl ⟨fun h => Int.not_le.mpr h.pos hnone, ?_⟩
    rw [asked_of_nonpos terms hnone]
  · have hpos : 0 < seconds := Int.not_le.mp hnone
    by_cases hreached : terms.maxLength ≤ Duration.ofMillis (seconds * 1000)
    · refine .inl ⟨fun h => Int.not_le.mpr h.short hreached, ?_⟩
      rw [asked_eq_maxLength hpos hreached]
    · have hshort : Duration.ofMillis (seconds * 1000) < terms.maxLength := Int.not_le.mp hreached
      have hle : seconds ≤ terms.maxLength.wholeSeconds := by
        apply Int.not_lt.mp
        intro hlt
        exact hreached (Int.le_of_lt ((Duration.wholeSeconds_lt_iff hpos).mp hlt))
      exact .inr ⟨⟨hpos, Int.le_antisymm hwhole hle, hshort⟩, rfl⟩
  · have hpos : 0 < seconds := Int.not_le.mp hnone
    have hle : Duration.ofMillis (seconds * 1000) ≤ terms.maxLength := by
      apply Int.not_lt.mp
      intro hlt
      exact hwhole (Int.le_of_lt ((Duration.wholeSeconds_lt_iff hpos).mpr hlt))
    refine .inl ⟨fun h => hwhole (Int.le_of_eq h.whole), ?_⟩
    rw [asked_eq_seconds hpos hle, Duration.seconds?_of_le_greatest hpos (Int.le_trans hle hmax)]
    rfl

private theorem StopsShort.maxLength_lt {terms : LockTerms} {seconds : Int}
    (h : terms.StopsShort seconds) :
    terms.maxLength < Duration.ofMillis ((seconds + 1) * 1000) := by
  apply (Duration.wholeSeconds_lt_iff (Int.lt_add_one_of_le (Int.le_of_lt h.pos))).mp
  rw [h.whole]
  exact Int.lt_add_one_of_le (Int.le_refl _)

end LockTerms

/-! ### Locks that are given -/

private theorem LockedRate.lifespan_of_make {id : LockId} {rate : ExchangeRate} {length : Duration}
    {now : Instant} {lock : LockedRate} (h : make id rate length now = .ok lock) :
    lock.lifespan = some length := by
  obtain ⟨expiresAt, hexpires, hlock⟩ := exists_of_bind_eq_ok h
  cases hlock
  have hadd := unless_eq_ok hexpires
  change some ((Timestamp.ofInstant expiresAt).since (Timestamp.ofInstant now)) = some length
  rw [Timestamp.since_ofInstant, Instant.since_of_add?_eq_some hadd]

namespace Desk

private theorem gives_lock (d : Desk) (pair : CurrencyPair) {seconds : Int} {length : Duration}
    (hlength : d.policy.lockTerms.clampLength seconds = .ok length) :
    Program.Gives (fun lock => lock.lifespan = some length) (d.lock pair seconds) := by
  refine (Program.gives_lift (P := (· = length)) ?_).bind ?_
  · intro granted hgranted
    rw [hlength] at hgranted
    cases hgranted
    rfl
  rintro _ rfl
  refine (Program.gives_true (d.rate pair)).bind fun rate _ => ?_
  refine (Program.gives_true _).bind fun now _ => ?_
  refine (Program.gives_true _).bind fun id _ => ?_
  refine (Program.gives_lift fun lock hlock => LockedRate.lifespan_of_make hlock).bind ?_
  intro lock hlock
  exact (Program.gives_true _).bind fun _ _ => Program.gives_pure hlock

/-- A request for a lock is granted the length it asks for: the default for none, else its seconds up
to the greatest length. The one exception is a request of just the whole seconds of a greatest length
that has a part of a second more: it is granted all of it. Whatever the clock, the store and the
provider reply, a lock that is given lives exactly as long as its request was granted. -/
theorem lock_lives_as_granted (d : Desk) (hmax : d.policy.lockTerms.maxLength ≤ Duration.greatest)
    (seconds : Int) :
    ∃ length, d.policy.lockTerms.clampLength seconds = .ok length ∧
      (length = d.policy.lockTerms.asked seconds ↔ ¬ d.policy.lockTerms.StopsShort seconds) ∧
      (d.policy.lockTerms.StopsShort seconds → length = d.policy.lockTerms.maxLength ∧
        length < Duration.ofMillis ((seconds + 1) * 1000)) ∧
      ∀ pair, (d.lock pair seconds).run.Yields fun answer =>
        ∀ lock, answer = .ok lock → lock.lifespan = some length := by
  obtain ⟨hasked, hlength⟩ | ⟨hshort, hlength⟩ := LockTerms.clampLength_eq hmax seconds
  · exact ⟨_, hlength, iff_of_true rfl hasked, fun h => absurd h hasked, fun pair =>
      d.gives_lock pair hlength⟩
  · refine ⟨_, hlength, iff_of_false ?_ (not_not_intro hshort), fun _ => ⟨rfl, hshort.maxLength_lt⟩,
      fun pair => d.gives_lock pair hlength⟩
    rw [LockTerms.asked_eq_seconds hshort.pos (Int.le_of_lt hshort.short)]
    intro heq
    have hlt := hshort.short
    rw [← heq] at hlt
    exact Int.lt_irrefl _ hlt

/-- At the standard terms a request of 45 seconds is granted 45 seconds. -/
theorem lock_lives_as_granted_standard :
    Desk.standard.policy.lockTerms.maxLength ≤ Duration.greatest ∧
      ∃ length, Desk.standard.policy.lockTerms.clampLength 45 = .ok length ∧
        length = Desk.standard.policy.lockTerms.asked 45 ∧
        ∀ pair, (Desk.standard.lock pair 45).run.Yields fun answer =>
          ∀ lock, answer = .ok lock → lock.lifespan = some length := by
  have hmax : Desk.standard.policy.lockTerms.maxLength ≤ Duration.greatest := by decide
  obtain ⟨length, hlength, hasked, -, hlives⟩ := Desk.standard.lock_lives_as_granted hmax 45
  have hwhole : ¬ Desk.standard.policy.lockTerms.StopsShort 45 := fun h =>
    absurd h.whole (by decide)
  exact ⟨hmax, length, hlength, hasked.mpr hwhole, hlives⟩

/-- With a greatest length of a second and a half, terms that are accepted, a request of one second is
granted the half second too. -/
theorem granted_more_than_asked :
    let terms : LockTerms := ⟨.ofMillis 1000, .ofMillis 1500, .zero⟩
    terms.validate = .ok () ∧ terms.asked 1 = .ofMillis 1000 ∧
      terms.clampLength 1 = .ok (.ofMillis 1500) := by
  decide

end Desk

end Bureau
