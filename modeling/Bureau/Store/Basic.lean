import Bureau.Error
import Bureau.Time.Timestamp
import Std.Data.HashMap

/-!
A store of texts under keys, each until its time runs out. Entries past their time are never read;
they keep their place until they are reclaimed, and the store holds a limited number of entries.
-/

set_option autoImplicit false

namespace Bureau

/-- A stored text and the first time at which it can no longer be read. -/
structure Entry where
  value : String
  expiresAt : Instant
deriving DecidableEq

def Entry.isLive (e : Entry) (now : Instant) : Bool := now < e.expiresAt

structure Store where
  capacity : Nat
  entries : Std.HashMap String Entry

/-- The counts of a store: all entries, those that can be read, and the rest. -/
structure StoreStats where
  total : Nat
  live : Nat
  expired : Nat
deriving DecidableEq

namespace Store

def standardCapacity : Nat := 100000

def empty (capacity : Nat) : Store := ⟨capacity, ∅⟩

def size (s : Store) : Nat := s.entries.size

def find? (s : Store) (key : String) (now : Instant) : Option String :=
  (s.entries[key]?.filter (·.isLive now)).map (·.value)

def erase (s : Store) (key : String) : Store := { s with entries := s.entries.erase key }

def purge (s : Store) (now : Instant) : Store :=
  { s with entries := s.entries.filter fun _ e => e.isLive now }

/-- Reclaims every entry past its time; also how many there were. -/
def reclaim (now : Instant) : Attempt Store Nat := do
  let before := (← MonadState.get).size
  modify (·.purge now)
  return before - (← MonadState.get).size

def stats (s : Store) (now : Instant) : StoreStats :=
  let live := (s.purge now).size
  ⟨s.size, live, s.size - live⟩

/-- Reads a key. An entry past its time is reclaimed. -/
def get (key : String) (now : Instant) : Attempt Store (Option String) := do
  match (← MonadState.get).entries[key]? with
  | none => return none
  | some e =>
      if e.isLive now then return some e.value
      else
        modify (·.erase key)
        return none

/-- Makes room for a new key: a full store reclaims what it can. -/
def makeRoom (s : Store) (key : String) (now : Instant) : Store :=
  if s.capacity ≤ s.size ∧ !s.entries.contains key then s.purge now else s

def hasRoom (s : Store) (key : String) : Bool := s.size < s.capacity || s.entries.contains key

/-- Writes a text that can be read for a positive length of time. A text under the same key is
replaced; a new key needs room. -/
def put (key value : String) (ttl : Duration) (now : Instant) :
    Attempt Store (Except StoreError Unit) := do
  modify (·.makeRoom key now)
  let s ← MonadState.get
  if !s.hasRoom key then
    return .error (.unavailable s!"capacity of {s.capacity} entries reached")
  else
    let expiresAt ← Crash.calendar.unless (now.add? ttl)
    modify fun s => { s with entries := s.entries.insert key ⟨value, expiresAt⟩ }
    return .ok ()

/-- Overwrites a readable key for a positive length of time; `false` if there is none. The text is
written before its time, so a time outside the calendar leaves the new text with the old time. -/
def overwrite (key value : String) (ttl : Duration) (now : Instant) : Attempt Store Bool := do
  match (← MonadState.get).entries[key]?.filter (·.isLive now) with
  | none => return false
  | some e =>
      modify fun s => { s with entries := s.entries.insert key { e with value } }
      let expiresAt ← Crash.calendar.unless (now.add? ttl)
      modify fun s => { s with entries := s.entries.insert key ⟨value, expiresAt⟩ }
      return true

/-- Removes a readable key; `false` if there is none. -/
def removeLive (key : String) (now : Instant) : Attempt Store Bool := do
  match (← MonadState.get).entries[key]?.filter (·.isLive now) with
  | none => return false
  | some _ =>
      modify (·.erase key)
      return true

end Store

end Bureau
