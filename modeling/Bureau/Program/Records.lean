import Bureau.Program.Query
import Bureau.Rate.Lock

/-!
Records: rates and locks kept as documents in a store. A rate is kept for a length of time, a lock
until its expiry.
-/

set_option autoImplicit false

namespace Bureau.Records

def rateKey (pair : CurrencyPair) : String :=
  "rate:" ++ pair.source.code ++ ":" ++ pair.target.code

def lockKey (id : LockId) : String := "lock:" ++ id.text

/-- The text under a key; an expired one counts as missing. -/
def findText (key : String) : ExceptT FxError Query (Option String) := do
  match ← (Query.ask (.get key) : Query _) with
  | .ok text => return text
  | .error (.expired _) => return none
  | .error e => throw (.ofStore e)

def find {α : Type} [Document α] (key : String) : ExceptT FxError Query (Option α) := do
  match ← findText key with
  | none => return none
  | some text =>
      match Document.read? text with
      | some a => return some a
      | none => throw (.unreadable key)

def save {α : Type} [Document α] (key : String) (a : α) (ttl : Duration) :
    ExceptT FxError Query Unit := do
  match ← (Query.ask (.set key (Document.write a) ttl) : Query _) with
  | .ok () => return ()
  | .error e => throw (.ofStore e)

def saveRate (rate : Rate) (ttl : Duration) : ExceptT FxError Query Unit :=
  save (rateKey rate.pair) rate ttl

def findRate (pair : CurrencyPair) : ExceptT FxError Query (Option Rate) := find (rateKey pair)

/-- Keeps a lock until its expiry, which must lie ahead. -/
def saveLock (lock : LockedRate) : ExceptT FxError Query Unit := do
  match lock.expiresAt with
  | none => throw (.invalidConfig s!"lock {lock.lockId} has no expiry")
  | some expiry =>
      let ttl := expiry.since (← Query.now)
      if ttl ≤ Duration.zero then throw (.invalidConfig s!"lock {lock.lockId} is already expired")
      save (lockKey lock.lockId) lock ttl

def findLock (id : LockId) : ExceptT FxError Query (Option LockedRate) := find (lockKey id)

def deleteLock (id : LockId) : ExceptT FxError Query Unit := do
  match ← (Query.ask (.delete (lockKey id)) : Query _) with
  | .ok () => return ()
  | .error e => throw (.ofStore e)

/-- Moves the expiry of a lock; `false` if the lock is gone. -/
def extendLock (id : LockId) (expiry : Timestamp) : ExceptT FxError Query Bool := do
  match ← findLock id with
  | none => return false
  | some lock =>
      let ttl := expiry.since (← Query.now)
      let text := Document.write { lock with expiresAt := some expiry }
      match ← (Query.ask (.replace (lockKey id) text ttl) : Query _) with
      | .ok extended => return extended
      | .error e => throw (.ofStore e)

def health : ExceptT FxError Query Unit := do
  match ← (Query.ask .ping : Query _) with
  | .ok () => return ()
  | .error e => throw (.ofStore e)

end Bureau.Records
