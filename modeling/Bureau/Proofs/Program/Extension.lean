import Bureau.Proofs.Document.RoundTrip
import Bureau.Proofs.Program.Queries
import Bureau.Proofs.Store.Interludes
import Bureau.Proofs.Time.Instant

/-!
Extensions of locks among others. An extension reads the lock and then overwrites it. In between others
may use the store and time may go by; an extension never brings back a lock that is gone by then. One
that is still there is extended, unless its new expiry, put off by the time that went by since the clock
was read, lies past the calendar.
-/

set_option autoImplicit false

namespace Bureau

/-! ### New expiries -/

/-- Whether an expiry can be set at a time, the clock having been read at another: it lies behind the
reading, or the calendar has the time that lies as far ahead now as the expiry did then. -/
def Timestamp.Fits (expiry : Timestamp) (read now : Instant) : Prop :=
  expiry.since read ≤ Duration.zero ∨ (now.add? (expiry.since read)).isSome

private theorem Timestamp.fits_iff {expiry : Timestamp} {read now : Instant}
    (hleap : expiry.leap = false) (hle : read ≤ now) :
    expiry.Fits read now ↔
      expiry.nanos ≤ read.nanos ∨ expiry.nanos + (now.nanos - read.nanos) ≤ calendarEnd := by
  obtain ⟨nanos, leap, hcalendar, _⟩ := expiry
  cases hleap
  have hsince : (ofInstant ⟨nanos, hcalendar⟩).since (ofInstant read) =
      Instant.since ⟨nanos, hcalendar⟩ read := since_ofInstant _ _
  have hreadStart := read.inCalendar.1
  change read.nanos ≤ now.nanos at hle
  change ((ofInstant ⟨nanos, hcalendar⟩).since (ofInstant read) ≤ Duration.zero ∨
    (now.add? ((ofInstant ⟨nanos, hcalendar⟩).since (ofInstant read))).isSome) ↔ _
  rw [hsince]
  change nanos - read.nanos ≤ 0 ∨ (Instant.ofNanos? (now.nanos + (nanos - read.nanos))).isSome ↔ _
  unfold Instant.ofNanos?
  split_ifs with hin
  · simp only [Option.isSome_some, or_true, true_iff]
    omega
  · simp only [Option.isSome_none, Bool.false_eq_true, or_false]
    omega

/-! ### Extensions among others -/

namespace SharedStore

open Records Attempt

variable {s : SharedStore} {id : LockId} {expiry : Timestamp}

private theorem inquire_extendLock_of_gone (expiry : Timestamp)
    (hgone : (s.meets 0).live? (lockKey id) (s.ahead 0).time = none) :
    ∃ left, (left = s.meets 0 ∨ left = (s.meets 0).erase (lockKey id)) ∧
      s.inquire (extendLock id expiry).run =
        (.ok (.ok false), ⟨left, fun n => s.ahead (n + 1)⟩) := by
  obtain ⟨left, hget, hleft⟩ := Store.runOn_answer_get_of_gone hgone
  refine ⟨left, hleft, ?_⟩
  rw [run_extendLock, inquire_call]
  change (Store.answer (.ok (s.ahead 0).time) (.get (lockKey id))).runOn
    ((s.ahead 0).pass s.store) = _ at hget
  rw [hget]
  rfl

private theorem inquire_extendLock_of_found {e : Entry} {lock : LockedRate}
    (hfound : (s.meets 0).live? (lockKey id) (s.ahead 0).time = some e)
    (hread : Document.read? e.value = some lock) :
    s.inquire (extendLock id expiry).run =
      let answered := (Store.answer (.ok (s.ahead 2).time) (.replace (lockKey id)
        (extendedText lock expiry) (expiry.since (s.ahead 1).time))).runOn (s.meets 2)
      andThen (answered.1, ⟨answered.2, fun n => s.ahead (n + 3)⟩) fun reply s =>
        (.ok (reply.mapError .ofStore), s) := by
  have hget := Store.runOn_answer_get_of_live hfound
  change (Store.answer (.ok (s.ahead 0).time) (.get (lockKey id))).runOn
    ((s.ahead 0).pass s.store) = _ at hget
  have hfoundIn : (foundIn (lockKey id) (.ok (some e.value)) : Except FxError (Option LockedRate)) =
      .ok (some lock) := by
    simp only [foundIn, MarketDesk.found, hread]
  rw [run_extendLock, inquire_call]
  simp only [hget, andThen_ok, hfoundIn, inquire_clock, inquire_call]
  rfl

/-- What others do between the reading of a key and its overwriting, if nobody sets the key and time
never goes back. -/
structure LeavesUnset (s : SharedStore) (key : String) : Prop where
  first : NeverSets key (s.ahead 1).visits
  second : NeverSets key (s.ahead 2).visits
  ordered : Instant.Ascending ((s.ahead 0).time :: ((s.ahead 1).times ++ (s.ahead 2).times))

namespace LeavesUnset

variable {key : String} (h : s.LeavesUnset key)
include h

private theorem ordered_first : Instant.Ascending ((s.ahead 0).time :: (s.ahead 1).times) :=
  (List.pairwise_append.mp
    (show Instant.Ascending (((s.ahead 0).time :: (s.ahead 1).times) ++ (s.ahead 2).times)
      from h.ordered)).1

private theorem ordered_second : Instant.Ascending ((s.ahead 1).time :: (s.ahead 2).times) := by
  obtain ⟨-, hsecond, hcross⟩ := List.pairwise_append.mp
    (show Instant.Ascending (((s.ahead 0).time :: (s.ahead 1).times) ++ (s.ahead 2).times)
      from h.ordered)
  have hlast : (s.ahead 1).time ∈ (s.ahead 0).time :: (s.ahead 1).times := by
    simp [Interlude.times]
  exact List.pairwise_cons.mpr ⟨fun t ht => hcross _ hlast t ht, hsecond⟩

private theorem time_le : (s.ahead 1).time ≤ (s.ahead 2).time :=
  (List.pairwise_cons.mp h.ordered_second).1 _ (by simp [Interlude.times])

private theorem live?_eq_none (hgone : (s.meets 0).live? key (s.ahead 0).time = none) :
    (s.meets 2).live? key (s.ahead 2).time = none :=
  Interlude.live?_pass h.second h.ordered_second
    (Interlude.live?_pass h.first h.ordered_first hgone)

end LeavesUnset

/-- The number of the last step of an extension: that of reading the lock, if it cannot be read. -/
def lastStep (s : SharedStore) (id : LockId) : Nat :=
  if ((s.meets 0).live? (lockKey id) (s.ahead 0).time).isSome then 2 else 0

private theorem lastStep_of_gone (h : (s.meets 0).live? (lockKey id) (s.ahead 0).time = none) :
    s.lastStep id = 0 := by
  rw [lastStep, h]
  rfl

private theorem lastStep_of_found {e : Entry}
    (h : (s.meets 0).live? (lockKey id) (s.ahead 0).time = some e) : s.lastStep id = 2 := by
  rw [lastStep, h]
  rfl

/-- An entry that is found, and the lock that its text reads as. -/
structure Finds (s : SharedStore) (id : LockId) (e : Entry) (lock : LockedRate) : Prop where
  live : (s.meets 0).live? (lockKey id) (s.ahead 0).time = some e
  reads : Document.read? e.value = some lock

inductive Extends (s : SharedStore) (id : LockId) (expiry : Timestamp) :
    Except Crash (Except FxError Bool) → Store → Prop
  /-- There is no lock to begin with. -/
  | unread {left : Store} (hgone : (s.meets 0).live? (lockKey id) (s.ahead 0).time = none)
      (hleft : left = s.meets 0 ∨ left = (s.meets 0).erase (lockKey id)) :
      Extends s id expiry (.ok (.ok false)) left
  /-- The lock is gone in the end. -/
  | lost {e : Entry} {lock : LockedRate} (hfinds : s.Finds id e lock)
      (hgone : (s.meets 2).live? (lockKey id) (s.ahead 2).time = none) :
      Extends s id expiry (.ok (.ok false)) (s.meets 2)
  /-- The new expiry is past, and the lock is removed. -/
  | ended {e last : Entry} {lock : LockedRate} (hfinds : s.Finds id e lock)
      (hlive : (s.meets 2).live? (lockKey id) (s.ahead 2).time = some last)
      (hpast : expiry.since (s.ahead 1).time ≤ Duration.zero) :
      Extends s id expiry (.ok (.ok true)) ((s.meets 2).erase (lockKey id))
  /-- The lock is overwritten. -/
  | moved {e last : Entry} {lock : LockedRate} {limit : Instant} (hfinds : s.Finds id e lock)
      (hlive : (s.meets 2).live? (lockKey id) (s.ahead 2).time = some last)
      (hahead : ¬ expiry.since (s.ahead 1).time ≤ Duration.zero)
      (hlimit : (s.ahead 2).time.add? (expiry.since (s.ahead 1).time) = some limit) :
      Extends s id expiry (.ok (.ok true))
        (((s.meets 2).insert (lockKey id) { last with value := extendedText lock expiry }).insert
          (lockKey id) ⟨extendedText lock expiry, limit⟩)
  /-- The calendar ends before the entry would; the text is overwritten, its time is not. -/
  | broken {e last : Entry} {lock : LockedRate} (hfinds : s.Finds id e lock)
      (hlive : (s.meets 2).live? (lockKey id) (s.ahead 2).time = some last)
      (hahead : ¬ expiry.since (s.ahead 1).time ≤ Duration.zero)
      (hends : (s.ahead 2).time.add? (expiry.since (s.ahead 1).time) = none) :
      Extends s id expiry (.error .calendar)
        ((s.meets 2).insert (lockKey id) { last with value := extendedText lock expiry })

private theorem extends_inquire
    (hreads : ∀ e, (s.meets 0).live? (lockKey id) (s.ahead 0).time = some e →
      ∃ lock : LockedRate, Document.read? e.value = some lock) :
    s.Extends id expiry (s.inquire (extendLock id expiry).run).1
      (s.inquire (extendLock id expiry).run).2.store := by
  cases hfound : (s.meets 0).live? (lockKey id) (s.ahead 0).time with
  | none =>
    obtain ⟨left, hleft, hrun⟩ := inquire_extendLock_of_gone expiry hfound
    rw [hrun]
    exact .unread hfound hleft
  | some e =>
    obtain ⟨lock, hread⟩ := hreads e hfound
    have hfinds : s.Finds id e lock := ⟨hfound, hread⟩
    rw [inquire_extendLock_of_found hfound hread, Store.runOn_answer_replace]
    cases hlive : (s.meets 2).live? (lockKey id) (s.ahead 2).time with
    | none => exact .lost hfinds hlive
    | some last =>
      simp only []
      split_ifs with hpast
      · exact .ended hfinds hlive hpast
      · cases hlimit : (s.ahead 2).time.add? (expiry.since (s.ahead 1).time) with
        | none => exact .broken hfinds hlive hpast hlimit
        | some limit => exact .moved hfinds hlive hpast hlimit

namespace Extends

variable {outcome : Except Crash (Except FxError Bool)} {left : Store}
  (h : s.Extends id expiry outcome left)
include h

theorem eq_false_iff (hunset : s.LeavesUnset (lockKey id)) :
    outcome = .ok (.ok false) ↔ (s.meets 2).live? (lockKey id) (s.ahead 2).time = none := by
  cases h with
  | unread hgone hleft => exact iff_of_true rfl (hunset.live?_eq_none hgone)
  | lost hfinds hgone => exact iff_of_true rfl hgone
  | ended hfinds hlive hpast => simp [hlive]
  | moved hfinds hlive hahead hlimit => simp [hlive]
  | broken hfinds hlive hahead hends => simp [hlive]

theorem eq_true_iff (hunset : s.LeavesUnset (lockKey id)) :
    outcome = .ok (.ok true) ↔
      ((s.meets 2).live? (lockKey id) (s.ahead 2).time).isSome ∧
        expiry.Fits (s.ahead 1).time (s.ahead 2).time := by
  unfold Timestamp.Fits
  cases h with
  | unread hgone hleft => simp [hunset.live?_eq_none hgone]
  | lost hfinds hgone => simp [hgone]
  | ended hfinds hlive hpast => simp [hlive, hpast]
  | moved hfinds hlive hahead hlimit => simp [hlive, hlimit]
  | broken hfinds hlive hahead hends => simp [hlive, hahead, hends]

private theorem eq_crash_iff (hunset : s.LeavesUnset (lockKey id)) :
    outcome = .error .calendar ↔
      ((s.meets 2).live? (lockKey id) (s.ahead 2).time).isSome ∧
        ¬ expiry.Fits (s.ahead 1).time (s.ahead 2).time := by
  unfold Timestamp.Fits
  cases h with
  | unread hgone hleft => simp [hunset.live?_eq_none hgone]
  | lost hfinds hgone => simp [hgone]
  | ended hfinds hlive hpast => simp [hpast]
  | moved hfinds hlive hahead hlimit => simp [hlimit]
  | broken hfinds hlive hahead hends => simp [hlive, hahead, hends]

/-- A lock that is gone in the end is not brought back. -/
theorem staysGone (hgone : (s.meets 2).live? (lockKey id) (s.ahead 2).time = none) :
    left.StaysGone (lockKey id) (s.ahead (s.lastStep id)).time := by
  cases h with
  | unread hnone hleft =>
    rw [lastStep_of_gone hnone]
    rcases hleft with rfl | rfl
    · exact Store.staysGone hnone
    · exact Store.staysGone (Store.live?_erase_eq_none _ hnone)
  | lost hfinds _ =>
    rw [lastStep_of_found hfinds.live]
    exact Store.staysGone hgone
  | ended hfinds hlive hpast => simp [hlive] at hgone
  | moved hfinds hlive hahead hlimit => simp [hlive] at hgone
  | broken hfinds hlive hahead hends => simp [hlive] at hgone

/-- A lock that is extended into the future can be read, and what is on record is the lock that was read
before with the new expiry. -/
theorem exists_entry (htrue : outcome = .ok (.ok true))
    (hahead : ((s.ahead 1).time : Timestamp) < expiry) :
    ∃ e lock stored, s.Finds id e lock ∧
      left.live? (lockKey id) (s.ahead 2).time = some stored ∧
      stored.value = Document.write { lock with expiresAt := some expiry } := by
  cases h with
  | unread hgone hleft => cases htrue
  | lost hfinds hgone => cases htrue
  | ended hfinds hlive hpast => exact absurd (Timestamp.zero_lt_since hahead) (Int.not_lt.mpr hpast)
  | @moved e last lock limit hfinds hlive hfuture hlimit =>
    have hreaches : Entry.isLive ⟨extendedText lock expiry, limit⟩ (s.ahead 2).time = true := by
      rw [Instant.add?_eq_some_iff] at hlimit
      have hpos : 0 < (expiry.since (s.ahead 1).time).nanos := Int.not_le.mp hfuture
      apply Entry.isLive_iff.mpr
      change (s.ahead 2).time.nanos < limit.nanos
      omega
    refine ⟨e, lock, ⟨extendedText lock expiry, limit⟩, hfinds, ?_, rfl⟩
    rw [Store.live?_insert, if_pos rfl, Option.filter_some, if_pos hreaches]
  | broken hfinds hlive hfuture hends => cases htrue

private theorem getElem?_of_ne {other : String} (hne : other ≠ lockKey id) :
    left.entries[other]? = (s.meets (s.lastStep id)).entries[other]? := by
  have herase : ∀ t : Store, (t.erase (lockKey id)).entries[other]? = t.entries[other]? := by
    intro t
    simp [Store.erase, Std.HashMap.getElem?_erase, Ne.symm hne]
  have hinsert : ∀ (t : Store) (e : Entry),
      (t.insert (lockKey id) e).entries[other]? = t.entries[other]? := by
    intro t e
    simp [Store.insert, Std.HashMap.getElem?_insert, Ne.symm hne]
  cases h with
  | unread hgone hleft =>
    rw [lastStep_of_gone hgone]
    rcases hleft with rfl | rfl
    · rfl
    · exact herase _
  | lost hfinds hgone => rw [lastStep_of_found hfinds.live]
  | ended hfinds hlive hpast => rw [lastStep_of_found hfinds.live, herase]
  | moved hfinds hlive hahead hlimit =>
    rw [lastStep_of_found hfinds.live, hinsert, hinsert]
  | broken hfinds hlive hahead hends => rw [lastStep_of_found hfinds.live, hinsert]

end Extends

/-- An extension never brings a lock back, whatever others do to the store between reading the lock and
overwriting it, as long as nobody sets it. It says that the lock is gone exactly if it is gone by the
time of the overwriting; the lock then stays gone until somebody sets it. A lock that is there by then
is extended, if the calendar still has the time that lies as far ahead as the new expiry did when the
clock was read; if not, the extension crashes. It never does for an expiry outside leap seconds, if no
time goes by between the clock and the overwriting. What is on record of a lock that is extended into
the future is the lock that was read with only its expiry changed. In any case the other keys are as
the last step of the extension meets them. -/
theorem extension_brings_nothing_back (s : SharedStore) (id : LockId) (expiry : Timestamp)
    (hunset : s.LeavesUnset (lockKey id))
    (hreads : ∀ e, (s.meets 0).live? (lockKey id) (s.ahead 0).time = some e →
      ∃ lock : LockedRate, Document.read? e.value = some lock) :
    let run := s.inquire (extendLock id expiry).run
    let there := ((s.meets 2).live? (lockKey id) (s.ahead 2).time).isSome
    let fits := expiry.Fits (s.ahead 1).time (s.ahead 2).time
    (run.1 = .ok (.ok false) ↔ ¬ there) ∧
      (run.1 = .ok (.ok true) ↔ there ∧ fits) ∧
      (run.1 = .error .calendar ↔ there ∧ ¬ fits) ∧
      (expiry.leap = false → (fits ↔ expiry.nanos ≤ (s.ahead 1).time.nanos ∨
        expiry.nanos + ((s.ahead 2).time.nanos - (s.ahead 1).time.nanos) ≤ calendarEnd)) ∧
      (¬ there → run.2.store.StaysGone (lockKey id) (s.ahead (s.lastStep id)).time) ∧
      (run.1 = .ok (.ok true) → ((s.ahead 1).time : Timestamp) < expiry →
        ∃ e lock stored, s.Finds id e lock ∧
          run.2.store.live? (lockKey id) (s.ahead 2).time = some stored ∧
          stored.value = Document.write { lock with expiresAt := some expiry } ∧
          Document.read? stored.value =
            some (LockedRate.plain { lock with expiresAt := some expiry })) ∧
      ∀ other, other ≠ lockKey id →
        run.2.store.entries[other]? = (s.meets (s.lastStep id)).entries[other]? := by
  intro run there fits
  have h : s.Extends id expiry run.1 run.2.store := extends_inquire hreads
  have hgone : ¬ there ↔ (s.meets 2).live? (lockKey id) (s.ahead 2).time = none :=
    Option.not_isSome_iff_eq_none
  refine ⟨(h.eq_false_iff hunset).trans hgone.symm, h.eq_true_iff hunset, h.eq_crash_iff hunset,
    fun hleap => Timestamp.fits_iff hleap hunset.time_le, fun hnone => h.staysGone (hgone.mp hnone),
    ?_, fun other hne => h.getElem?_of_ne hne⟩
  intro htrue hahead
  obtain ⟨e, lock, stored, hfinds, hstored, hvalue⟩ := h.exists_entry htrue hahead
  refine ⟨e, lock, stored, hfinds, hstored, hvalue, ?_⟩
  rw [hvalue]
  exact (Document.keeps_lock _).read?_write

/-- A store with one lock, which others leave alone but for what they do right before it is overwritten;
the clock is read as soon as the lock is. -/
def holding (lock : LockedRate) (limit read : Instant) (last : Interlude) : SharedStore where
  store := (Store.empty 1).insert (lockKey lock.lockId) ⟨Document.write lock, limit⟩
  ahead
    | 0 => ⟨[], read⟩
    | 1 => ⟨[], read⟩
    | _ => last

private theorem exists_read_holding (lock : LockedRate) (limit read : Instant) (last : Interlude)
    (e : Entry)
    (h : ((holding lock limit read last).meets 0).live? (lockKey lock.lockId) read = some e) :
    ∃ lock : LockedRate, Document.read? e.value = some lock := by
  change ((Store.empty 1).insert (lockKey lock.lockId) ⟨Document.write lock, limit⟩).live?
    (lockKey lock.lockId) read = some e at h
  rw [Store.live?_insert, if_pos rfl, Option.filter_eq_some_iff] at h
  cases h.1
  exact ⟨_, (Document.keeps_lock lock).read?_write⟩

/-- An extension of a lock that is deleted meanwhile. -/
theorem extension_brings_nothing_back_deleted :
    let lock : LockedRate := ⟨⟨"x"⟩, none, none, none, false⟩
    let last : Interlude := ⟨[⟨⟨1, by decide⟩, .call (.delete (lockKey ⟨"x"⟩))⟩], ⟨2, by decide⟩⟩
    let s := holding lock ⟨5, by decide⟩ ⟨0, by decide⟩ last
    let run := s.inquire (extendLock ⟨"x"⟩ (Timestamp.ofInstant ⟨9, by decide⟩)).run
    s.LeavesUnset (lockKey ⟨"x"⟩) ∧ run.1 = .ok (.ok false) ∧
      run.2.store.StaysGone (lockKey ⟨"x"⟩) (s.ahead (s.lastStep ⟨"x"⟩)).time := by
  intro lock last s run
  have hunset : s.LeavesUnset (lockKey ⟨"x"⟩) := by
    refine ⟨fun v hv => absurd hv List.not_mem_nil, fun v hv => ?_, by decide⟩
    rw [List.mem_singleton.mp hv]
    exact not_false
  have hgone : ¬ ((s.meets 2).live? (lockKey ⟨"x"⟩) (s.ahead 2).time).isSome := by
    change ¬ (((s.meets 1).erase (lockKey ⟨"x"⟩)).live? (lockKey ⟨"x"⟩) _).isSome
    rw [Store.live?_erase, if_pos rfl]
    exact Bool.false_ne_true
  have hmain := s.extension_brings_nothing_back ⟨"x"⟩ (Timestamp.ofInstant ⟨9, by decide⟩) hunset
    (exists_read_holding lock _ _ last)
  exact ⟨hunset, hmain.1.mpr hgone, hmain.2.2.2.2.1 hgone⟩

/-- Just before the end of the calendar an extension of a lock that is there crashes, though the
calendar has its new expiry: a second went by since the clock was read. -/
theorem extension_crashes_before_end :
    let lock : LockedRate := ⟨⟨"x"⟩, none, none, none, false⟩
    let read : Instant := ⟨calendarEnd - 99000000000, by decide⟩
    let now : Instant := ⟨calendarEnd - 98000000000, by decide⟩
    let s := holding lock ⟨calendarEnd - 90000000000, by decide⟩ read ⟨[], now⟩
    s.LeavesUnset (lockKey ⟨"x"⟩) ∧ ((s.meets 2).live? (lockKey ⟨"x"⟩) now).isSome ∧
      (s.inquire (extendLock ⟨"x"⟩ (Timestamp.ofInstant ⟨calendarEnd, by decide⟩)).run).1 =
        .error .calendar := by
  intro lock read now s
  have hunset : s.LeavesUnset (lockKey ⟨"x"⟩) :=
    ⟨fun v hv => absurd hv List.not_mem_nil, fun v hv => absurd hv List.not_mem_nil, by decide⟩
  have hthere : ((s.meets 2).live? (lockKey ⟨"x"⟩) now).isSome := by
    change (((Store.empty 1).insert (lockKey ⟨"x"⟩) _).live? (lockKey ⟨"x"⟩) now).isSome
    rw [Store.live?_insert, if_pos rfl]
    rfl
  have hends : ¬ (Timestamp.ofInstant ⟨calendarEnd, by decide⟩).Fits read now := by
    rw [Timestamp.fits_iff rfl (by decide)]
    decide
  exact ⟨hunset, hthere, ((extends_inquire (exists_read_holding lock _ _ _)).eq_crash_iff
    hunset).mpr ⟨hthere, hends⟩⟩

end SharedStore

end Bureau
