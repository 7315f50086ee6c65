import Bureau.Rate.Market
import Std.Data.HashMap

/-!
A scripted market: rates that are set by hand, and a count of how often they are asked for.
-/

set_option autoImplicit false

namespace Bureau

structure ScriptedMarket where
  name : String
  /-- The mid and the spread in percent of each pair. -/
  rates : Std.HashMap CurrencyPair (Decimal × Decimal)
  /-- How many single rates were asked for, batches included. -/
  calls : Nat
  /-- How many batches were asked for. -/
  batchCalls : Nat

namespace ScriptedMarket

def empty (name : String) : ScriptedMarket := ⟨name, ∅, 0, 0⟩

def validity : Duration := Duration.ofMillis 30000

def setRate (m : ScriptedMarket) (pair : CurrencyPair) (mid spreadPercent : Decimal) :
    ScriptedMarket :=
  { m with rates := m.rates.insert pair (mid, spreadPercent) }

def price (pair : CurrencyPair) (clock : Except Crash Instant) :
    Attempt ScriptedMarket (Except FxError Rate) := do
  modify fun m => { m with calls := m.calls + 1 }
  let m ← get
  match m.rates[pair]? with
  | none => return .error (.unsupportedPair pair)
  | some (mid, spreadPercent) =>
      return .ok (← Rate.make pair mid spreadPercent validity m.name (← clock))

def supports (m : ScriptedMarket) (pair : CurrencyPair) : Bool := m.rates.contains pair

def supportedPairs (m : ScriptedMarket) : List CurrencyPair := CurrencyPair.sorted m.rates.keys

end ScriptedMarket

end Bureau
