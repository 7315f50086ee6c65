import Bureau.Store.Call

/-!
Stores that misbehave on purpose: a call may be refused, go slowly, or lose its key afterwards. The
calls are counted by kind.
-/

set_option autoImplicit false

namespace Bureau

inductive CallKind where
  | get
  | set
  | delete
  | replace
  | ping
deriving DecidableEq

def StoreCall.kind : StoreCall → CallKind
  | .get _ => .get
  | .set _ _ _ => .set
  | .delete _ => .delete
  | .replace _ _ _ => .replace
  | .ping => .ping

/-- One value for each kind of call. -/
structure PerKind (α : Type) where
  get : α
  set : α
  delete : α
  replace : α
  ping : α
deriving DecidableEq

namespace PerKind

def const {α : Type} (a : α) : PerKind α := ⟨a, a, a, a, a⟩

def of {α : Type} (p : PerKind α) : CallKind → α
  | .get => p.get
  | .set => p.set
  | .delete => p.delete
  | .replace => p.replace
  | .ping => p.ping

def update {α : Type} (p : PerKind α) (kind : CallKind) (f : α → α) : PerKind α :=
  match kind with
  | .get => { p with get := f p.get }
  | .set => { p with set := f p.set }
  | .delete => { p with delete := f p.delete }
  | .replace => { p with replace := f p.replace }
  | .ping => { p with ping := f p.ping }

def toList {α : Type} (p : PerKind α) : List α := [p.get, p.set, p.delete, p.replace, p.ping]

end PerKind

inductive Fault where
  /-- They do not. -/
  | none
  /-- The store is not asked. -/
  | refuse (error : StoreError)
  /-- The store is asked after a wait, in milliseconds. -/
  | slowRequest (wait : Nat)
  /-- The answer comes after a wait, in milliseconds. -/
  | slowAnswer (wait : Nat)
  /-- The key is removed after the call. -/
  | loseKey
deriving DecidableEq

/-- A store with faults by kind of call, and counts of the calls. -/
structure FaultyStore where
  store : Store
  faults : PerKind Fault
  calls : PerKind Nat

/-- How a call goes on: it is answered now, it is made after a wait, or its answer is held back. -/
inductive Course (c : StoreCall) where
  | answered (reply : c.Reply)
  | asked (wait : Nat)
  | held (wait : Nat) (reply : c.Reply)

namespace FaultyStore

def sound (store : Store) : FaultyStore := ⟨store, .const .none, .const 0⟩

def onStore {α : Type} (operation : Attempt Store α) : Attempt FaultyStore α := do
  let ⟨store, faults, calls⟩ ← get
  let (outcome, store) := operation.runOn store
  set (⟨store, faults, calls⟩ : FaultyStore)
  outcome

def ask (c : StoreCall) (clock : Except Crash Instant) : Attempt FaultyStore c.Reply :=
  onStore (Store.answer clock c)

def setFault (s : FaultyStore) (kind : CallKind) (fault : Fault) : FaultyStore :=
  { s with faults := s.faults.update kind fun _ => fault }

def dropKey (s : FaultyStore) (c : StoreCall) : FaultyStore :=
  match c.key? with
  | some key => { s with store := s.store.erase key }
  | none => s

def begin (c : StoreCall) (clock : Except Crash Instant) : Attempt FaultyStore (Course c) := do
  modify fun s => { s with calls := s.calls.update c.kind (· + 1) }
  match (← get).faults.of c.kind with
  | .none => return .answered (← ask c clock)
  | .refuse e => return .answered (.error e)
  | .slowRequest wait => return .asked wait
  | .slowAnswer wait => return .held wait (← ask c clock)
  | .loseKey =>
      let reply ← ask c clock
      modify (·.dropKey c)
      return .answered reply

end FaultyStore

end Bureau
