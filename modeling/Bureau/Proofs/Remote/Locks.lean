import Bureau.Proofs.Document.RoundTrip
import Bureau.Proofs.Serving.Locks
import Bureau.Proofs.Remote.Trouble

/-!
Locks under store trouble. Looking up a lock tells an outage from a lapse: an error is reported where
the store cannot be reached or is silent, and a lock is shown only as it was read in time and while its
expiry lies ahead. A lock is given out only once the store has confirmed its document in time.
-/

set_option autoImplicit false

namespace Bureau

private theorem LockedRate.isActive_iff {lock : LockedRate} {now : Instant} :
    lock.isActive now = true ↔
      lock.expired = false ∧ ∃ expiry, lock.expiresAt = some expiry ∧ (now : Timestamp) < expiry := by
  unfold isActive honouredUntil
  cases lock.expired with
  | true => simp
  | false => cases lock.expiresAt <;> simp [Timestamp.isReached]

namespace RemoteDesk

open Attempt MarketDesk

variable {σ μ κ : Type} (o : RemoteDesk σ μ κ)

/-! ### Answers in time -/

/-- What the store answers to a call made now, if it does so within the timeout of the desk. -/
def answer (c : StoreCall) (f : RunState (Far σ) μ) : Option c.Reply :=
  let timeout := o.marketDesk.desk.policy.storeTimeout.timerMillis
  ((o.remote.respond f.store.state f.store.tick (f.store.tick + timeout) c).1.filter
    (·.1 ≤ timeout)).map (·.2)

private theorem call_eq_answer (c : StoreCall) (f : RunState (Far σ) μ) :
    (o.call (deadline o.marketDesk.desk f) c f).1 = o.answer c f := by
  have hlimit : Nat.max f.store.tick (deadline o.marketDesk.desk f) = deadline o.marketDesk.desk f :=
    Nat.max_eq_right (Nat.le_add_right _ _)
  unfold call answer
  simp only [hlimit]
  unfold deadline
  rcases o.remote.respond f.store.state f.store.tick _ c with ⟨_ | ⟨wait, reply⟩, state⟩
  · rfl
  · by_cases htime : wait ≤ o.marketDesk.desk.policy.storeTimeout.timerMillis
    · have hin : f.store.tick + wait ≤
          f.store.tick + o.marketDesk.desk.policy.storeTimeout.timerMillis := by omega
      simp only [if_pos hin, Option.filter_some, decide_eq_true htime, if_true, Option.map_some]
    · have hout : ¬ f.store.tick + wait ≤
          f.store.tick + o.marketDesk.desk.policy.storeTimeout.timerMillis := by omega
      simp only [if_neg hout, Option.filter_some, decide_eq_false htime, Bool.false_eq_true,
        if_false, Option.map_none]

def overdue (operation : String) : FxError :=
  .timeout s!"{operation} exceeded {o.marketDesk.desk.policy.storeTimeout.wholeMillis}ms"

/-! ### Looking up a lock -/

/-- A lock that is honoured is in a reply: its document, without the mark of an expired one, and with
an expiry that lies ahead. -/
def Honours (now : Instant) (reply : Option (Except StoreError (Option String)))
    (lock : LockedRate) : Prop :=
  ∃ text expiry, reply = some (.ok (some text)) ∧ Document.read? text = some lock ∧
    lock.expired = false ∧ lock.expiresAt = some expiry ∧ (now : Timestamp) < expiry

/-- How a lookup ends that gets a reply, or none, of the store. -/
structure LooksUp (id : LockId) (now : Instant)
    (reply : Option (Except StoreError (Option String))) (outcome : Except FxError LockedRate) :
    Prop where
  error_iff : ∀ e, outcome = .error e ↔
    (∃ detail, reply = some (.error (.unavailable detail)) ∧ e = .ofStore (.unavailable detail)) ∨
      (reply = none ∧ e = o.overdue "get_locked_rate")
  honoured_iff : ∀ lock, (outcome = .ok lock ∧ lock.expired = false) ↔ Honours now reply lock
  gone_iff : outcome = .ok (.gone id) ↔
    reply ≠ none ∧ (∀ detail, reply ≠ some (.error (.unavailable detail))) ∧
      ∀ lock, ¬ Honours now reply lock

def lockIn (now : Instant) : Option (Except StoreError (Option String)) → Option LockedRate
  | some (.ok (some text)) => (Document.read? text).filter (·.isActive now)
  | _ => none

def shownOf (id : LockId) (now : Instant) :
    Option (Except StoreError (Option String)) → Except FxError LockedRate
  | none => .error (o.overdue "get_locked_rate")
  | some (.error (.unavailable detail)) => .error (.ofStore (.unavailable detail))
  | some (.error (.expired detail)) =>
      .ok ((lockIn now (some (.error (.expired detail)))).getD (.gone id))
  | some (.ok text) => .ok ((lockIn now (some (.ok text))).getD (.gone id))

theorem serve_findLock (id : LockId) (f : RunState (Far σ) μ) :
    o.serve (o.marketDesk.desk.findLock id).run f =
      let g := (o.call (deadline o.marketDesk.desk f) (.get (Records.lockKey id)) f).2
      (.ok (o.shownOf id (o.now g) (o.answer (.get (Records.lockKey id)) f)), g) := by
  rw [Desk.findLock, serve_run_lift_bind, serve_consult, Records.findLock, Records.run_find,
    inquire_call_done, andThen_ok, ← call_eq_answer]
  rcases o.call (deadline o.marketDesk.desk f) (.get (Records.lockKey id)) f with
    ⟨_ | (detail | detail) | _ | text, g⟩
  · rfl
  · rfl
  · rfl
  · rfl
  · simp only [Option.map_some, Records.foundIn, found, shownOf, lockIn]
    cases hread : (Document.read? text : Option LockedRate) with
    | none => rfl
    | some lock =>
        rw [Option.filter_some]
        dsimp only [verdict]
        cases hhonoured : lock.honouredUntil with
        | none =>
            have hactive : lock.isActive (o.now g) = false := by
              simp only [LockedRate.isActive, hhonoured]
            rw [hactive]
            rfl
        | some expiry =>
            have hactive : lock.isActive (o.now g) = !expiry.isReached (o.now g) := by
              simp only [LockedRate.isActive, hhonoured]
            rw [hactive]
            change (Except.ok (Except.ok (if expiry.isReached (o.now g) then .gone id else lock)), g) =
              _
            cases expiry.isReached (o.now g) <;> rfl

private theorem honours_iff {now : Instant} {reply : Option (Except StoreError (Option String))}
    {lock : LockedRate} : Honours now reply lock ↔ lockIn now reply = some lock := by
  constructor
  · rintro ⟨text, expiry, rfl, hread, hmark, hexpiry, hahead⟩
    have hactive := LockedRate.isActive_iff.mpr ⟨hmark, expiry, hexpiry, hahead⟩
    rw [lockIn, hread, Option.filter_some, if_pos hactive]
  · intro h
    rcases reply with _ | _ | _ | text
    · cases h
    · cases h
    · cases h
    · obtain ⟨hread, hactive⟩ := Option.filter_eq_some_iff.mp h
      obtain ⟨hmark, expiry, hexpiry, hahead⟩ := LockedRate.isActive_iff.mp hactive
      exact ⟨text, expiry, rfl, hread, hmark, hexpiry, hahead⟩

private theorem looksUp_getD (id : LockId) (now : Instant)
    {reply : Option (Except StoreError (Option String))} (hreply : reply ≠ none)
    (hreach : ∀ detail, reply ≠ some (.error (.unavailable detail))) :
    o.LooksUp id now reply (.ok ((lockIn now reply).getD (.gone id))) where
  error_iff e := by
    constructor
    · rintro ⟨⟩
    · rintro (⟨detail, heq, -⟩ | ⟨heq, -⟩)
      · exact absurd heq (hreach detail)
      · exact absurd heq hreply
  honoured_iff lock := by
    rw [honours_iff]
    cases hheld : lockIn now reply with
    | none =>
        constructor
        · rintro ⟨heq, hmark⟩
          cases heq
          cases hmark
        · rintro ⟨⟩
    | some held =>
        obtain ⟨-, -, -, -, hmark, -⟩ := honours_iff.mpr hheld
        constructor
        · rintro ⟨heq, -⟩
          cases heq
          rfl
        · rintro ⟨⟩
          exact ⟨rfl, hmark⟩
  gone_iff := by
    simp only [honours_iff]
    cases hheld : lockIn now reply with
    | none => exact ⟨fun _ => ⟨hreply, hreach, fun _ => nofun⟩, fun _ => rfl⟩
    | some held =>
        obtain ⟨-, -, -, -, hmark, -⟩ := honours_iff.mpr hheld
        constructor
        · intro heq
          cases heq
          cases hmark
        · rintro ⟨-, -, hnone⟩
          exact absurd rfl (hnone held)

/-- Each reply is told from the others: silence, an outage, a lock that is honoured, and the rest. -/
theorem looksUp_shownOf (id : LockId) (now : Instant)
    (reply : Option (Except StoreError (Option String))) :
    o.LooksUp id now reply (o.shownOf id now reply) := by
  rcases reply with _ | (detail | detail) | text
  · exact ⟨by simp [shownOf, eq_comm], by simp [shownOf, Honours], by simp [shownOf]⟩
  · exact ⟨by simp [shownOf, eq_comm], by simp [shownOf, Honours], by simp [shownOf]⟩
  · exact o.looksUp_getD id now nofun fun _ => nofun
  · exact o.looksUp_getD id now nofun fun _ => nofun

/-! ### Giving out a lock -/

def spent (lock : LockedRate) : FxError :=
  .invalidConfig s!"lock {lock.lockId} is already expired"

/-- What comes of a writing that is confirmed, refused or not answered in time. -/
def confirmed (lock : LockedRate) : Option (Except StoreError Unit) → Except FxError LockedRate
  | none => .error (o.overdue "save_locked_rate")
  | some (.error trouble) => .error (.ofStore trouble)
  | some (.ok ()) => .ok lock

private theorem confirmed_eq_ok_iff {lock shown : LockedRate}
    {reply : Option (Except StoreError Unit)} :
    o.confirmed lock reply = .ok shown ↔ shown = lock ∧ reply = some (.ok ()) := by
  rcases reply with _ | trouble | _ <;> simp [confirmed, eq_comm]

private theorem confirmed_eq_error_iff {lock : LockedRate} {reply : Option (Except StoreError Unit)}
    {e : FxError} : o.confirmed lock reply = .error e ↔
      reply = none ∧ e = o.overdue "save_locked_rate" ∨
        ∃ trouble, reply = some (.error trouble) ∧ e = .ofStore trouble := by
  rcases reply with _ | trouble | _ <;> simp [confirmed, eq_comm]

def keep (lock : LockedRate) (length : Duration) : StoreCall :=
  .set (Records.lockKey lock.lockId) (Document.write lock) length

def reception (lock : LockedRate) (length : Duration) (f : RunState (Far σ) μ) :
    Option (Except StoreError Unit) := o.answer (keep lock length) f

/-- A lock of a rate from now on; the store is asked to put it on record. -/
def issue (rate : ExchangeRate) (length : Duration) (f : RunState (Far σ) μ) :
    Except Crash (Except FxError LockedRate) × RunState (Far σ) μ :=
  match LockedRate.make (.ofUuid (o.marketDesk.ids f.minted)) rate length (o.now f) with
  | .error c => (.error c, f.minting)
  | .ok lock =>
      if length ≤ Duration.zero then (.ok (.error (spent lock)), f.minting)
      else
        (.ok (o.confirmed lock (o.reception lock length f.minting)),
          (o.call (deadline o.marketDesk.desk f.minting) (keep lock length) f.minting).2)

theorem inquire_saveLock {id : LockId} {rate : ExchangeRate} {length : Duration} {lock : LockedRate}
    {f : RunState (Far σ) μ} (deadline : Nat)
    (hmake : LockedRate.make id rate length (o.now f) = .ok lock) :
    o.inquire deadline (Records.saveLock lock).run f =
      if length ≤ Duration.zero then (some (.error (spent lock)), f)
      else
        ((o.call deadline (keep lock length) f).1.map (·.mapError .ofStore),
          (o.call deadline (keep lock length) f).2) := by
  rw [MarketDesk.make_eq] at hmake
  cases hexpiry : (o.now f).add? length with
  | none =>
      rw [hexpiry] at hmake
      cases hmake
  | some expiry =>
      rw [hexpiry] at hmake
      cases hmake
      have hlength : (expiry : Timestamp).since (o.now f) = length := by
        rw [Timestamp.since_ofInstant]
        exact Instant.since_of_add?_eq_some hexpiry
      simp only [Records.saveLock]
      change o.inquire deadline (if (expiry : Timestamp).since (o.now f) ≤ Duration.zero then _
        else _ : ExceptT FxError Query Unit).run f = _
      rw [hlength]
      split
      · rfl
      · rw [Records.run_save, inquire_call_done]
        rfl

theorem serve_lock (pair : CurrencyPair) (seconds : Int) (f : RunState (Far σ) μ) :
    o.serve (o.marketDesk.desk.lock pair seconds).run f =
      match o.marketDesk.desk.policy.lockTerms.clampLength seconds with
      | .error c => (.error c, f)
      | .ok length =>
          andThen (o.serve (o.marketDesk.desk.rate pair).run f)
            (orError fun rate g => o.issue rate length g) := by
  rw [Desk.lock, serve_run_lift_bind, serve_lift]
  cases o.marketDesk.desk.policy.lockTerms.clampLength seconds with
  | error c => rfl
  | ok length =>
      rw [andThen_ok, serve_run_bind]
      refine congrArg (andThen _) (congrArg orError ?_)
      funext rate g
      rw [serve_run_lift_bind, Program.now, serve_clock, serve_done, andThen_ok,
        serve_run_lift_bind, Program.fresh, serve_mint, serve_done, andThen_ok,
        serve_run_lift_bind, serve_lift, issue]
      cases hmake : LockedRate.make (.ofUuid (o.marketDesk.ids g.minted)) rate length (o.now g) with
      | error c => rfl
      | ok lock =>
          rw [andThen_ok, serve_run_bind, serve_consult, o.inquire_saveLock (f := g.minting) _ hmake]
          simp only
          split
          · rfl
          · rw [reception, ← call_eq_answer]
            rcases o.call _ (keep lock length) g.minting with ⟨_ | (trouble | ⟨⟩), k⟩ <;> rfl

/-- A lock of a pair is drawn up in a state and is to be put on record in another. -/
def DrawsUp (pair : CurrencyPair) (seconds : Int) (f : RunState (Far σ) μ) (lock : LockedRate)
    (length : Duration) (g : RunState (Far σ) μ) : Prop :=
  o.marketDesk.desk.policy.lockTerms.clampLength seconds = .ok length ∧
    ∃ rate k, o.serve (o.marketDesk.desk.rate pair).run f = (.ok (.ok rate), k) ∧
      LockedRate.make (.ofUuid (o.marketDesk.ids k.minted)) rate length (o.now k) = .ok lock ∧
      g = k.minting

/-- How a request for a lock ends. It is given out as the store has confirmed its document; a crash
comes of its length, its price or its expiry, before the store is asked to write; all else is an
error. -/
structure Locks (pair : CurrencyPair) (seconds : Int) (f : RunState (Far σ) μ)
    (outcome : Except Crash (Except FxError LockedRate)) : Prop where
  given_iff : ∀ lock, outcome = .ok (.ok lock) ↔
    ∃ length g, o.DrawsUp pair seconds f lock length g ∧ Duration.zero < length ∧
      Document.read? (Document.write lock) = some lock.plain ∧
      o.reception lock length g = some (.ok ())
  crash_iff : ∀ c, outcome = .error c ↔
    o.marketDesk.desk.policy.lockTerms.clampLength seconds = .error c ∨
      ∃ length, o.marketDesk.desk.policy.lockTerms.clampLength seconds = .ok length ∧
        ((o.serve (o.marketDesk.desk.rate pair).run f).1 = .error c ∨
          ∃ rate k, o.serve (o.marketDesk.desk.rate pair).run f = (.ok (.ok rate), k) ∧
            (o.now k).add? length = none ∧ c = .calendar)
  error_iff : ∀ e, outcome = .ok (.error e) ↔
    (∃ length, o.marketDesk.desk.policy.lockTerms.clampLength seconds = .ok length ∧
      (o.serve (o.marketDesk.desk.rate pair).run f).1 = .ok (.error e)) ∨
      ∃ lock length g, o.DrawsUp pair seconds f lock length g ∧
        (length ≤ Duration.zero ∧ e = spent lock ∨
          Duration.zero < length ∧ (o.reception lock length g = none ∧
              e = o.overdue "save_locked_rate" ∨
            ∃ trouble, o.reception lock length g = some (.error trouble) ∧
              e = .ofStore trouble))

section DrawsUp

variable {o} {pair : CurrencyPair} {seconds : Int} {f k : RunState (Far σ) μ} {length : Duration}
  {rate : ExchangeRate}

private theorem drawsUp_iff {lock : LockedRate}
    (hclamp : o.marketDesk.desk.policy.lockTerms.clampLength seconds = .ok length)
    (hrate : o.serve (o.marketDesk.desk.rate pair).run f = (.ok (.ok rate), k))
    (hmake : LockedRate.make (.ofUuid (o.marketDesk.ids k.minted)) rate length (o.now k) = .ok lock)
    (lock' : LockedRate) (length' : Duration) (g : RunState (Far σ) μ) :
    o.DrawsUp pair seconds f lock' length' g ↔ lock' = lock ∧ length' = length ∧ g = k.minting := by
  constructor
  · rintro ⟨hclamp', rate', k', hrate', hmake', rfl⟩
    rw [hclamp] at hclamp'
    cases hclamp'
    rw [hrate] at hrate'
    cases hrate'
    rw [hmake] at hmake'
    cases hmake'
    exact ⟨rfl, rfl, rfl⟩
  · rintro ⟨rfl, rfl, rfl⟩
    exact ⟨hclamp, rate, k, hrate, hmake, rfl⟩

private theorem locks_issue_of_make {lock : LockedRate}
    (hclamp : o.marketDesk.desk.policy.lockTerms.clampLength seconds = .ok length)
    (hrate : o.serve (o.marketDesk.desk.rate pair).run f = (.ok (.ok rate), k))
    (hmake : LockedRate.make (.ofUuid (o.marketDesk.ids k.minted)) rate length (o.now k) = .ok lock) :
    o.Locks pair seconds f (o.issue rate length k).1 := by
  have hdraws := drawsUp_iff hclamp hrate hmake
  have hread := fun lock => (Document.keeps_lock lock).read?_write
  have hexpiry : (o.now k).add? length ≠ none := by
    intro hnone
    rw [MarketDesk.make_eq, hnone] at hmake
    cases hmake
  have hcrash : ∀ c, ¬ (o.marketDesk.desk.policy.lockTerms.clampLength seconds = .error c ∨
      ∃ length, o.marketDesk.desk.policy.lockTerms.clampLength seconds = .ok length ∧
        ((o.serve (o.marketDesk.desk.rate pair).run f).1 = .error c ∨
          ∃ rate k, o.serve (o.marketDesk.desk.rate pair).run f = (.ok (.ok rate), k) ∧
            (o.now k).add? length = none ∧ c = .calendar)) := by
    simp [hclamp, hrate, hexpiry]
  rw [issue, hmake]
  by_cases hspent : length ≤ Duration.zero
  · have hnot : ¬ Duration.zero < length := Int.not_lt.mpr hspent
    simp only [if_pos hspent]
    refine ⟨?_, fun c => iff_of_false nofun (hcrash c), ?_⟩
    · simp [hdraws, hnot]
    · simp [hclamp, hrate, hdraws, hnot, hspent, eq_comm]
  · have hlasts : Duration.zero < length := Int.not_le.mp hspent
    simp only [if_neg hspent]
    refine ⟨fun shown => ?_, fun c => iff_of_false nofun (hcrash c), fun e => ?_⟩
    · rw [Except.ok.injEq, o.confirmed_eq_ok_iff]
      constructor
      · rintro ⟨rfl, hreply⟩
        exact ⟨length, k.minting, (hdraws _ _ _).mpr ⟨rfl, rfl, rfl⟩, hlasts, hread shown, hreply⟩
      · rintro ⟨length', g, hdrawn, -, -, hreply⟩
        obtain ⟨rfl, rfl, rfl⟩ := (hdraws _ _ _).mp hdrawn
        exact ⟨rfl, hreply⟩
    · rw [Except.ok.injEq, o.confirmed_eq_error_iff]
      constructor
      · intro htrouble
        have hdrawn := (hdraws _ _ _).mpr ⟨rfl, rfl, rfl⟩
        exact .inr ⟨lock, length, k.minting, hdrawn, .inr ⟨hlasts, htrouble⟩⟩
      · rintro (⟨-, -, hpriced⟩ | ⟨lock', length', g, hdrawn, ⟨hspent', -⟩ | ⟨-, htrouble⟩⟩)
        · rw [hrate] at hpriced
          cases hpriced
        · obtain ⟨rfl, rfl, rfl⟩ := (hdraws _ _ _).mp hdrawn
          exact absurd hspent' hspent
        · obtain ⟨rfl, rfl, rfl⟩ := (hdraws _ _ _).mp hdrawn
          exact htrouble

private theorem locks_issue
    (hclamp : o.marketDesk.desk.policy.lockTerms.clampLength seconds = .ok length)
    (hrate : o.serve (o.marketDesk.desk.rate pair).run f = (.ok (.ok rate), k)) :
    o.Locks pair seconds f (o.issue rate length k).1 := by
  have hmade := MarketDesk.make_eq (o.now k) (.ofUuid (o.marketDesk.ids k.minted)) rate length
  cases hexpiry : (o.now k).add? length with
  | none =>
      rw [hexpiry] at hmade
      rw [issue, hmade]
      refine ⟨?_, ?_, ?_⟩
      · simp [DrawsUp, hclamp, hrate, hmade]
      · simp [hclamp, hrate, hexpiry, eq_comm]
      · simp [DrawsUp, hclamp, hrate, hmade]
  | some expiry =>
      rw [hexpiry] at hmade
      exact locks_issue_of_make hclamp hrate hmade

end DrawsUp

private theorem locks_serve (pair : CurrencyPair) (seconds : Int) (f : RunState (Far σ) μ) :
    o.Locks pair seconds f (o.serve (o.marketDesk.desk.lock pair seconds).run f).1 := by
  rw [serve_lock]
  cases hclamp : o.marketDesk.desk.policy.lockTerms.clampLength seconds with
  | error c => exact ⟨by simp [DrawsUp, hclamp], by simp [hclamp], by simp [DrawsUp, hclamp]⟩
  | ok length =>
      rcases hrate : o.serve (o.marketDesk.desk.rate pair).run f with ⟨c | e | rate, k⟩
      · exact ⟨by simp [DrawsUp, hrate], by simp [hclamp, hrate], by simp [DrawsUp, hrate]⟩
      · exact ⟨by simp [DrawsUp, hrate], by simp [hclamp, hrate], by simp [DrawsUp, hrate, hclamp]⟩
      · exact locks_issue hclamp hrate

/-- Locks are never guessed. Whatever the store does, a lookup reports an outage or a silence as such,
shows a lock only as the store gave it in time and while its expiry lies ahead, and takes all else for
gone. A lock is given out exactly when the store has confirmed the document of it in time. -/
theorem locks_despite_store (f : RunState (Far σ) μ) :
    (∀ id, ∃ outcome g, o.serve (o.marketDesk.desk.findLock id).run f = (.ok outcome, g) ∧ Waits f g ∧
      o.LooksUp id (o.now g) (o.answer (.get (Records.lockKey id)) f) outcome) ∧
    ∀ pair seconds, o.Locks pair seconds f (o.serve (o.marketDesk.desk.lock pair seconds).run f).1 := by
  refine ⟨fun id => ⟨_, _, o.serve_findLock id f, o.waits_call _ _ f, ?_⟩,
    fun pair seconds => o.locks_serve pair seconds f⟩
  exact o.looksUp_shownOf id _ _

/-- A store that keeps the text of one lock for ever and confirms nothing. -/
def hoarding (lock : LockedRate) : Remote Unit where
  respond _ _ _ c := match c with
    | .get _ => (some (5, .ok (some (Document.write lock))), ())
    | _ => (none, ())

/-- A lock that such a store has kept is shown before its expiry, and is gone at it. -/
theorem locks_despite_store_stale :
    let expiry : Instant := ⟨10, by decide⟩
    let lock : LockedRate := ⟨⟨"lock_1"⟩, none, none, some ↑expiry, false⟩
    let shown (now : Instant) := ((ofProvider .standard (hoarding lock) fun _ => now).serve
      (Desk.standard.findLock lock.lockId).run
      (RunState.opening ⟨0, ()⟩ (.scripted (ScriptedMarket.empty "mock")))).1
    shown ⟨9, by decide⟩ = .ok (.ok lock) ∧ shown expiry = .ok (.ok (.gone lock.lockId)) := by
  intro expiry lock shown
  let f : RunState (Far Unit) Provider :=
    RunState.opening ⟨0, ()⟩ (.scripted (ScriptedMarket.empty "mock"))
  have hread : Document.read? (Document.write lock) = some lock :=
    (Document.keeps_lock lock).read?_write
  have hahead : ((⟨9, by decide⟩ : Instant) : Timestamp) < expiry := by decide
  have hreached : ¬ (expiry : Timestamp) < expiry := by decide
  have hanswer : ∀ now, (ofProvider .standard (hoarding lock) fun _ => now).answer
      (.get (Records.lockKey lock.lockId)) f = some (.ok (some (Document.write lock))) := by
    intro now
    have htimeout : Policy.standard.storeTimeout.timerMillis = 500 := by decide
    change ((some (5, Except.ok (some (Document.write lock)))).filter
      (·.1 ≤ Policy.standard.storeTimeout.timerMillis)).map (·.2) = _
    rw [htimeout]
    rfl
  have hfinds := fun now =>
    ((ofProvider .standard (hoarding lock) fun _ => now).locks_despite_store f).1 lock.lockId
  constructor
  · obtain ⟨outcome, g, hserve, -, hlooks⟩ := hfinds ⟨9, by decide⟩
    rw [hanswer] at hlooks
    have hheld := (hlooks.honoured_iff lock).mpr
      ⟨Document.write lock, expiry, rfl, hread, rfl, rfl, hahead⟩
    exact (congrArg Prod.fst hserve).trans (congrArg Except.ok hheld.1)
  · obtain ⟨outcome, g, hserve, -, hlooks⟩ := hfinds expiry
    rw [hanswer] at hlooks
    have hgone := hlooks.gone_iff.mpr ⟨nofun, nofun, ?_⟩
    · exact (congrArg Prod.fst hserve).trans (congrArg Except.ok hgone)
    · rintro other ⟨text, late, htext, hother, -, hlate, hopen⟩
      cases htext
      rw [hread] at hother
      cases hother
      cases hlate
      exact hreached hopen

end RemoteDesk

end Bureau
