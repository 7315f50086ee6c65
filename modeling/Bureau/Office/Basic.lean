import Bureau.Program.Basic
import Bureau.Store.Fault
import Bureau.Time.Clock

/-!
The office: what programs deal with. It holds the clock, the store, the provider and the count of
identifiers that were made.
-/

set_option autoImplicit false

namespace Bureau

structure Office where
  clock : Clock
  store : FaultyStore
  provider : Provider
  minted : Nat

namespace Office

/-- The milliseconds since the clock started. -/
def ticks (o : Office) : Nat := o.clock.ticks

def setTicks (o : Office) (ticks : Nat) : Office := { o with clock := o.clock.setTicks ticks }

def onStore {α : Type} (operation : Attempt FaultyStore α) : Attempt Office α := do
  let ⟨clock, store, provider, minted⟩ ← get
  let (outcome, store) := operation.runOn store
  set (⟨clock, store, provider, minted⟩ : Office)
  outcome

def onProvider {α : Type} (operation : Attempt Provider α) : Attempt Office α := do
  let ⟨clock, store, provider, minted⟩ ← get
  let (outcome, provider) := operation.runOn provider
  set (⟨clock, store, provider, minted⟩ : Office)
  outcome

def readClock : Attempt Office Instant := do (← get).clock.read

def begin (c : StoreCall) : Attempt Office (Course c) := do
  onStore (FaultyStore.begin c (← get).clock.read)

def ask (c : StoreCall) : Attempt Office c.Reply := do
  onStore (FaultyStore.ask c (← get).clock.read)

def price (pair : CurrencyPair) : Attempt Office (Except FxError Rate) := do
  onProvider (Provider.price pair (← get).clock.read)

def priceAll (pairs : List CurrencyPair) : Attempt Office (List Rate) := do
  onProvider (Provider.priceAll pairs (← get).clock.read)

def mint : Attempt Office Uuid :=
  modifyGet fun o => (Uuid.numbered o.minted, { o with minted := o.minted + 1 })

def deadline (wait : Nat) : Attempt Office Nat := do return (← get).ticks + wait

end Office

end Bureau
