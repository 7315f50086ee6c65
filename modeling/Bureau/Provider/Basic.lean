import Bureau.Provider.Scripted
import Bureau.Provider.Simulated

/-!
Providers of market rates. A batch leaves out the pairs that cannot be priced; a crash ends it.
-/

set_option autoImplicit false

namespace Bureau

/-- A provider of market rates. -/
inductive Provider where
  | simulated (market : SimulatedMarket)
  | scripted (market : ScriptedMarket)

namespace Provider

def name : Provider → String
  | .simulated m => m.settings.name
  | .scripted m => m.name

/-- An operation on a simulated market; none where the provider is another. -/
def onSimulated {α : Type} (operation : Attempt SimulatedMarket α) :
    Attempt Provider (Option α) := do
  match ← get with
  | .scripted _ => return none
  | .simulated m =>
      let (outcome, m) := operation.runOn m
      set (Provider.simulated m)
      return some (← outcome)

def setRate (p : Provider) (pair : CurrencyPair) (mid spreadPercent : Decimal) : Provider :=
  match p with
  | .simulated m => .simulated m
  | .scripted m => .scripted (m.setRate pair mid spreadPercent)

def price (pair : CurrencyPair) (clock : Except Crash Instant) :
    Attempt Provider (Except FxError Rate) := do
  match ← get with
  | .simulated m =>
      let (outcome, m) := (SimulatedMarket.price pair clock).runOn m
      set (Provider.simulated m)
      outcome
  | .scripted m =>
      let (outcome, m) := (ScriptedMarket.price pair clock).runOn m
      set (Provider.scripted m)
      outcome

def priceEach (clock : Except Crash Instant) : List CurrencyPair → Attempt Provider (List Rate)
  | [] => return []
  | pair :: rest => do
      match ← price pair clock with
      | .ok rate => return rate :: (← priceEach clock rest)
      | .error _ => priceEach clock rest

def noteBatch : Provider → Provider
  | .simulated m => .simulated m
  | .scripted m => .scripted { m with batchCalls := m.batchCalls + 1 }

def priceAll (pairs : List CurrencyPair) (clock : Except Crash Instant) :
    Attempt Provider (List Rate) := do
  modify noteBatch
  priceEach clock pairs

def supports (p : Provider) (pair : CurrencyPair) : Bool :=
  match p with
  | .simulated m => m.supports pair
  | .scripted m => m.supports pair

def supportedPairs : Provider → List CurrencyPair
  | .simulated m => m.supportedPairs
  | .scripted m => m.supportedPairs

end Provider

end Bureau
