import Bureau.Store.Basic

/-!
The calls that a store answers. Reading and overwriting look at the clock first; writing looks at it
only for a text that can be read at all, and removing never does.
-/

set_option autoImplicit false

namespace Bureau

inductive StoreCall where
  | get (key : String)
  | set (key value : String) (ttl : Duration)
  | delete (key : String)
  | replace (key value : String) (ttl : Duration)
  | ping
deriving DecidableEq

namespace StoreCall

abbrev Answer : StoreCall → Type
  | .get _ => Option String
  | .set _ _ _ => Unit
  | .delete _ => Unit
  | .replace _ _ _ => Bool
  | .ping => Unit

/-- What comes back from a call: an answer or an error. -/
abbrev Reply (c : StoreCall) : Type := Except StoreError c.Answer

def key? : StoreCall → Option String
  | .get key => some key
  | .set key _ _ => some key
  | .delete key => some key
  | .replace key _ _ => some key
  | .ping => none

end StoreCall

/-- Answers a call at a reading of the clock. A length that is not positive means removal. -/
def Store.answer (clock : Except Crash Instant) : (c : StoreCall) → Attempt Store c.Reply
  | .get key => do return .ok (← Store.get key (← clock))
  | .set key value ttl => do
      if ttl ≤ Duration.zero then
        modify (·.erase key)
        return .ok ()
      else Store.put key value ttl (← clock)
  | .delete key => do
      modify (·.erase key)
      return .ok ()
  | .replace key value ttl => do
      let now ← clock
      if ttl ≤ Duration.zero then return .ok (← Store.removeLive key now)
      else return .ok (← Store.overwrite key value ttl now)
  | .ping => return .ok ()

end Bureau
