import Bureau.Proofs.Serving.Records
import Bureau.Proofs.Time.Instant

/-!
Locks on a plain store: how they are issued, found, extended and deleted.
-/

set_option autoImplicit false

namespace Bureau

namespace RunState

variable {μ : Type}

def lockOnRecord? (f : RunState PlainStore μ) (id : LockId) (now : Instant) : Option LockedRate :=
  (f.live? (Records.lockKey id) now).bind fun e => Document.read? e.value

/-- What the desk shows under an id: the lock on record while it is honoured. -/
def shownLock (f : RunState PlainStore μ) (id : LockId) (now : Instant) : LockedRate :=
  match f.lockOnRecord? id now with
  | none => .gone id
  | some lock =>
      match lock.honouredUntil with
      | none => .gone id
      | some expiry => if expiry.isReached now then .gone id else lock

end RunState

namespace MarketDesk

open Attempt

variable {μ κ : Type} (h : MarketDesk μ κ) (now : Instant) (f : RunState PlainStore μ)

theorem serve_findLock (id : LockId) :
    h.serve now (h.desk.findLock id).run f = (.ok (.ok (f.shownLock id now)), f) := by
  rw [Desk.findLock, serve_run_lift_bind, serve_consult, Records.findLock, inquire_find, andThen_ok,
    RunState.shownLock, RunState.lockOnRecord?]
  cases f.live? (Records.lockKey id) now with
  | none => rfl
  | some e =>
      rw [Option.map_some, Option.bind_some, found]
      cases (Document.read? e.value : Option LockedRate) with
      | none => rfl
      | some lock =>
          change h.serve now (match lock.honouredUntil with
            | none => return .gone id
            | some expiry => return if expiry.isReached (← ExceptT.lift Program.now) then .gone id
                else lock : ExceptT FxError Program LockedRate).run f = _
          cases hhonoured : lock.honouredUntil with
          | none => simp only [hhonoured]; rfl
          | some expiry => simp only [hhonoured]; rfl

theorem serve_deleteLock (id : LockId) :
    h.serve now (h.desk.deleteLock id).run f =
      (.ok (.ok ()), f.assign (Records.lockKey id) none) := by
  rw [Desk.deleteLock, serve_consult, Records.deleteLock, inquire_run_liftM_bind, inquire_ask,
    call_delete]
  rfl

noncomputable def issue (rate : ExchangeRate) (length : Duration) :
    Except Crash (Except FxError LockedRate) × RunState PlainStore μ :=
  match LockedRate.make (.ofUuid (h.ids f.minted)) rate length now with
  | .error c => (.error c, f.minting)
  | .ok lock =>
      if length ≤ Duration.zero then
        (.ok (.error (.invalidConfig s!"lock {lock.lockId} is already expired")), f.minting)
      else
        andThen
          (call now (.set (Records.lockKey lock.lockId) (Document.write lock) length) f.minting)
          fun reply f => (.ok ((reply.mapError .ofStore).map fun _ => lock), f)

theorem make_eq (id : LockId) (rate : ExchangeRate) (length : Duration) :
    LockedRate.make id rate length now =
      match now.add? length with
      | none => .error .calendar
      | some expiry => .ok ⟨id, some rate, some now, some expiry, false⟩ := by
  unfold LockedRate.make
  cases now.add? length <;> rfl

theorem issue_of_room (rate : ExchangeRate) {length : Duration} {expiry : Instant}
    (hroom : f.store.map.count now < f.store.capacity) (hlength : Duration.zero < length)
    (hexpiry : now.add? length = some expiry) :
    h.issue now f rate length =
      (.ok (.ok ⟨.ofUuid (h.ids f.minted), some rate, some now, some expiry, false⟩),
        f.minting.assign (Records.lockKey (.ofUuid (h.ids f.minted)))
          (some ⟨Document.write (LockedRate.mk (.ofUuid (h.ids f.minted)) (some rate)
            (some (now : Timestamp)) (some (expiry : Timestamp)) false), expiry⟩)) := by
  have hlength' : ¬ length ≤ Duration.zero := Int.not_le.mpr hlength
  rw [issue, make_eq, hexpiry]
  simp only [if_neg hlength']
  rw [call_set_of_room now f.minting hroom hlength hexpiry]
  rfl

theorem inquire_saveLock {id : LockId} {rate : ExchangeRate} {length : Duration} {lock : LockedRate}
    (hmake : LockedRate.make id rate length now = .ok lock) :
    inquire now (Records.saveLock lock).run f =
      if length ≤ Duration.zero then
        (.ok (.error (.invalidConfig s!"lock {lock.lockId} is already expired")), f)
      else
        andThen (call now (.set (Records.lockKey lock.lockId) (Document.write lock) length) f)
          fun reply f => (.ok (reply.mapError .ofStore), f) := by
  rw [make_eq] at hmake
  cases hexpiry : now.add? length with
  | none =>
      rw [hexpiry] at hmake
      cases hmake
  | some expiry =>
      rw [hexpiry] at hmake
      cases hmake
      have hlength : (expiry : Timestamp).since now = length := by
        rw [Instant.add?_eq_some_iff] at hexpiry
        have hnanos : expiry.nanos - now.nanos = length.nanos := by omega
        rw [Timestamp.since_ofInstant, Instant.since, hnanos]
      simp only [Records.saveLock]
      rw [inquire_run_liftM_bind, inquire_now, andThen_ok, hlength]
      split
      · rfl
      · exact inquire_save now f _ _ _

theorem serve_lock (pair : CurrencyPair) (seconds : Int) :
    h.serve now (h.desk.lock pair seconds).run f =
      match h.desk.policy.lockTerms.clampLength seconds with
      | .error c => (.error c, f)
      | .ok length =>
          andThen (h.serve now (h.desk.rate pair).run f)
            (orError fun rate g => h.issue now g rate length) := by
  rw [Desk.lock, serve_run_lift_bind, serve_lift]
  cases h.desk.policy.lockTerms.clampLength seconds with
  | error c => rfl
  | ok length =>
      rw [andThen_ok, serve_run_bind]
      congr 1
      congr 1
      funext rate g
      rw [serve_run_lift_bind, Program.now, serve_clock, serve_done, andThen_ok,
        serve_run_lift_bind, Program.fresh, serve_mint]
      simp only [mint, andThen_ok, serve_done]
      rw [serve_run_lift_bind, serve_lift, issue]
      cases hmake : LockedRate.make (.ofUuid (h.ids g.minted)) rate length now with
      | error c => rfl
      | ok lock =>
          rw [andThen_ok, serve_run_bind, serve_consult, inquire_saveLock now _ hmake]
          simp only
          split
          · rfl
          · rw [andThen_andThen]
            refine congrArg (andThen _) ?_
            funext reply f
            cases reply <;> rfl

/-- What can come of giving out a lock: it is put on record as it is given out, or nothing is. -/
theorem issue_cases (rate : ExchangeRate) (length : Duration) :
    (∃ lock expiry, h.issue now f rate length =
        (.ok (.ok lock), f.minting.assign (Records.lockKey lock.lockId)
          (some ⟨Document.write lock, expiry⟩)) ∧
      lock.rate = some rate ∧ lock.expired = false ∧ lock.expiresAt = some ↑expiry ∧
      now.add? length = some expiry) ∨
    ((h.issue now f rate length).2.store = f.store ∧
      ∀ lock, (h.issue now f rate length).1 ≠ .ok (.ok lock)) := by
  rw [issue, make_eq]
  cases hexpiry : now.add? length with
  | none => exact .inr ⟨rfl, fun _ => nofun⟩
  | some expiry =>
      simp only
      split
      · exact .inr ⟨rfl, fun _ => nofun⟩
      · rename_i hlength
        rcases call_set_cases now f.minting (Records.lockKey (.ofUuid (h.ids f.minted)))
          (Document.write (LockedRate.mk (.ofUuid (h.ids f.minted)) (some rate)
            (some (now : Timestamp)) (some (expiry : Timestamp)) false)) length
          with ⟨hnone, -⟩ | ⟨e, heq⟩ | ⟨-, other, hother, heq⟩ | ⟨-, -, heq⟩
        · exact absurd hnone hlength
        · rw [heq]
          exact .inr ⟨rfl, fun _ => nofun⟩
        · rw [hexpiry] at hother
          cases hother
          rw [heq]
          exact .inl ⟨_, expiry, rfl, rfl, rfl, rfl, rfl⟩
        · rw [heq]
          exact .inr ⟨rfl, fun _ => nofun⟩

theorem rate_of_issue {rate : ExchangeRate} {length : Duration} {lock : LockedRate}
    {g : RunState PlainStore μ} (hissue : h.issue now f rate length = (.ok (.ok lock), g)) :
    lock.rate = some rate := by
  rcases h.issue_cases now f rate length with ⟨made, expiry, heq, hrate, -⟩ | ⟨-, hother⟩
  · rw [heq] at hissue
    cases hissue
    exact hrate
  · rw [hissue] at hother
    exact absurd rfl (hother lock)

/-! ### Locks on record -/

end MarketDesk

namespace RunState

variable {μ : Type}

/-- A lock on record, whose text lapses with it. -/
structure HasLock (f : RunState PlainStore μ) (id : LockId) (lock : LockedRate) (expiry : Instant) :
    Prop where
  id_eq : lock.lockId = id
  expired_eq : lock.expired = false
  expiresAt_eq : lock.expiresAt = some ↑expiry
  entry_eq : ∃ text, f.store.map (Records.lockKey id) = some ⟨text, expiry⟩ ∧
    Document.read? text = some lock

variable {f : RunState PlainStore μ} {id : LockId} {lock : LockedRate} {expiry now : Instant}

private theorem HasLock.honouredUntil_eq (hlock : f.HasLock id lock expiry) :
    lock.honouredUntil = some ↑expiry := by
  rw [LockedRate.honouredUntil, hlock.expired_eq, hlock.expiresAt_eq]
  rfl

private theorem HasLock.live?_eq (hlock : f.HasLock id lock expiry) (hopen : now < expiry) :
    ∃ text, f.live? (Records.lockKey id) now = some ⟨text, expiry⟩ ∧
      Document.read? text = some lock := by
  obtain ⟨text, hentry, hread⟩ := hlock.entry_eq
  refine ⟨text, ?_, hread⟩
  rw [live?, TimedMap.live?, hentry, Option.filter_some, if_pos (Entry.isLive_iff.mpr hopen)]

theorem HasLock.shownLock_eq (hlock : f.HasLock id lock expiry) :
    f.shownLock id now = if now < expiry then lock else .gone id := by
  split
  · rename_i hopen
    obtain ⟨text, hlive, hread⟩ := hlock.live?_eq hopen
    have hopen' : ¬ expiry.nanos ≤ now.nanos := Int.not_le.mpr hopen
    simp only [shownLock, lockOnRecord?, hlive, Option.bind_some, hread, hlock.honouredUntil_eq,
      Timestamp.isReached_ofInstant, decide_eq_true_eq, if_neg hopen']
  · rename_i hlapsed
    obtain ⟨text, hentry, -⟩ := hlock.entry_eq
    have hlive : f.live? (Records.lockKey id) now = none := by
      rw [live?, TimedMap.live?, hentry, Option.filter_some, if_neg]
      rwa [Entry.isLive_iff]
    simp only [shownLock, lockOnRecord?, hlive, Option.bind_none]

theorem shownLock_of_none (hnone : f.store.map (Records.lockKey id) = none) :
    f.shownLock id now = .gone id := by
  have hlive : f.live? (Records.lockKey id) now = none := by
    rw [live?, TimedMap.live?, hnone, Option.filter_none]
  simp only [shownLock, lockOnRecord?, hlive, Option.bind_none]

end RunState

namespace MarketDesk

open Attempt

variable {μ κ : Type} (h : MarketDesk μ κ) {now : Instant} {f : RunState PlainStore μ} {id : LockId}
  {lock : LockedRate} {expiry : Instant}

theorem serve_extendLock_of_gone (hgone : f.shownLock id now = .gone id) (grace : Duration) :
    h.serve now (h.desk.extendLock id grace).run f = (.ok (.ok (.gone id)), f) := by
  rw [Desk.extendLock, serve_run_bind, serve_findLock, hgone]
  rfl

theorem serve_extendLock (hlock : f.HasLock id lock expiry) (hopen : now < expiry)
    (grace : Duration) :
    h.serve now (h.desk.extendLock id grace).run f =
      if grace.min h.desk.policy.lockTerms.maxGrace ≤ Duration.zero then (.ok (.ok lock), f)
      else
        match expiry.add? (grace.min h.desk.policy.lockTerms.maxGrace) with
        | none => (.error .calendar, f)
        | some later =>
            (.ok (.ok { lock with expiresAt := some ↑later }),
              f.assign (Records.lockKey id)
                (some ⟨Document.write { lock with expiresAt := some (later : Timestamp) },
                  later⟩)) := by
  obtain ⟨text, hlive, hread⟩ := hlock.live?_eq hopen
  have hid := hlock.id_eq
  subst hid
  rw [Desk.extendLock, serve_run_bind, serve_findLock, hlock.shownLock_eq, if_pos hopen]
  simp only [andThen_ok, orError_ok, hlock.honouredUntil_eq]
  split
  · rfl
  · rename_i hgrace
    rw [serve_run_lift_bind, serve_lift, Timestamp.add?_ofInstant]
    cases hadd : expiry.add? (grace.min h.desk.policy.lockTerms.maxGrace) with
    | none => rfl
    | some later =>
        have hlater : ¬ later.since now ≤ Duration.zero := by
          intro hle
          have hlate : later.nanos - now.nanos ≤ 0 := hle
          have hopen : now.nanos < expiry.nanos := hopen
          have hgrace : ¬ (grace.min h.desk.policy.lockTerms.maxGrace).nanos ≤ 0 := hgrace
          rw [Instant.add?_eq_some_iff] at hadd
          omega
        rw [Option.map_some]
        simp only [Crash.unless, andThen_ok]
        rw [serve_run_bind, serve_consult, Records.extendLock, inquire_run_bind, Records.findLock,
          inquire_find, hlive]
        simp only [Option.map_some, found, hread, andThen_ok, orError_ok]
        rw [inquire_run_liftM_bind, inquire_now, andThen_ok, Timestamp.since_ofInstant,
          inquire_run_liftM_bind, inquire_ask,
          call_replace now f hlive hlater (Instant.add?_since later now)]
        rfl

end MarketDesk

end Bureau
