import Bureau.Rate.Market

/-!
Rate locks: a rate guaranteed until a time, and the terms on which locks are given.
-/

set_option autoImplicit false

namespace Bureau

/-- A lock, or what is left of one that is gone: only its token. -/
structure LockedRate where
  lockId : LockId
  rate : Option ExchangeRate
  lockedAt : Option Timestamp
  expiresAt : Option Timestamp
  expired : Bool
deriving DecidableEq

namespace LockedRate

def make (id : LockId) (rate : ExchangeRate) (length : Duration) (now : Instant) :
    Except Crash LockedRate := do
  let expiresAt ← Crash.calendar.unless (now.add? length)
  return ⟨id, some rate, some now, some expiresAt, false⟩

def gone (id : LockId) : LockedRate := ⟨id, none, none, none, true⟩

/-- The time until which the lock is honoured; none for a lock that is gone. -/
def honouredUntil (l : LockedRate) : Option Timestamp := if l.expired then none else l.expiresAt

def isActive (l : LockedRate) (now : Instant) : Bool :=
  match l.honouredUntil with
  | some t => !t.isReached now
  | none => false

def timeRemaining (l : LockedRate) (now : Instant) : Duration :=
  match l.honouredUntil with
  | some t => Duration.zero.max (t.since now)
  | none => Duration.zero

/-- Whether the lock is honoured, and the time left. The clock is read only for a lock that is not
gone. -/
def standing (l : LockedRate) (clock : Except Crash Instant) : Except Crash (Bool × Duration) :=
  match l.honouredUntil with
  | none => .ok (false, Duration.zero)
  | some _ => clock.map fun now => (l.isActive now, l.timeRemaining now)

def lifespan (l : LockedRate) : Option Duration := do
  return (← l.expiresAt).since (← l.lockedAt)

/-- The names of the fields of a lock, in the order of its document. -/
def fieldNames : List String := ["lock_id", "rate", "locked_at", "expires_at", "expired"]

instance : Document LockedRate where
  encode l := .record
    [("lock_id", Document.encode l.lockId), ("rate", Document.encodeOption l.rate),
      ("locked_at", Document.encodeOption l.lockedAt),
      ("expires_at", Document.encodeOption l.expiresAt), ("expired", Document.encode l.expired)]
  decode? j := do
    let [lockId, rate, lockedAt, expiresAt, expired] ← Document.fields? fieldNames j | none
    return ⟨← lockId.required?,
      ← rate.optional? (ExchangeRate.decodeWithin? (ExchangeRate.depthLimit - 1)),
      ← lockedAt.optional? Document.decode?, ← expiresAt.optional? Document.decode?,
      ← expired.required?⟩

end LockedRate

/-- The terms on which locks are given. -/
structure LockTerms where
  /-- The length of a lock when none is asked for. -/
  defaultLength : Duration
  /-- The greatest length of a lock. -/
  maxLength : Duration
  /-- The greatest extension at a time. -/
  maxGrace : Duration
deriving DecidableEq

namespace LockTerms

def standard : LockTerms :=
  ⟨Duration.ofMillis 30000, Duration.ofMillis 120000, Duration.ofMillis 60000⟩

/-- The length granted for a request in seconds: the default for none, and the maximum from its
whole seconds on. -/
def clampLength (terms : LockTerms) (seconds : Int) : Except Crash Duration :=
  if seconds ≤ 0 then .ok terms.defaultLength
  else if terms.maxLength.wholeSeconds ≤ seconds then .ok terms.maxLength
  else Crash.duration.unless (Duration.seconds? seconds)

def validate (terms : LockTerms) : Except String Unit :=
  if terms.defaultLength ≤ Duration.zero then .error "Default lock duration must be positive"
  else if terms.maxLength < terms.defaultLength then
    .error "Default lock duration cannot exceed max duration"
  else if terms.maxGrace < Duration.zero then .error "Lock grace cannot be negative"
  else .ok ()

end LockTerms

end Bureau
