import Bureau.Provider.Route
import Bureau.Random.Unit
import Bureau.Rate.Market
import Std.Data.HashMap

/-!
The simulated market: base rates with a random walk each, and the rates derived from them.
-/

set_option autoImplicit false

namespace Bureau

structure SimulatedMarket where
  settings : MarketSettings
  /-- The seed in use. -/
  seed : UInt64
  /-- The walks that have started. -/
  walks : Std.HashMap CurrencyPair Walk

namespace SimulatedMarket

/-- A market with settings that are accepted. Settings without a seed take it from `entropy`. -/
def make (settings : MarketSettings) (entropy : UInt64) : Except FxError SimulatedMarket :=
  match settings.validate with
  | .ok () => .ok ⟨settings, settings.seed.getD entropy, ∅⟩
  | .error reason => .error (.invalidConfig reason)

/-- The parts of steps of the walk of a pair, which depend on the seed and the pair alone. -/
def unit (m : SimulatedMarket) (pair : CurrencyPair) : Nat → Decimal :=
  Random.unit (m.seed ^^^ Random.textHash pair.text)

/-- The walk of a base rate, which starts when it is first needed. -/
def walk (m : SimulatedMarket) (pair : CurrencyPair) (now : Instant) : Walk :=
  m.walks.getD pair (Walk.start now)

def driftedMid (base : BaseRate) (now : Instant) : Attempt SimulatedMarket Decimal := do
  let m ← get
  let (outcome, walk) := (Walk.read m.settings.drift (m.unit base.pair) now).runOn
    (m.walk base.pair now)
  set { m with walks := m.walks.insert base.pair walk }
  let offset ← outcome
  Crash.arithmetic.unless ((Decimal.one.add? offset).bind base.mid.mul?)

def legMid (now : Instant) : Leg → Attempt SimulatedMarket Decimal
  | .direct base => driftedMid base now
  | .inverse base => do Crash.arithmetic.unless (Decimal.one.div? (← driftedMid base now))

def routeMid (now : Instant) : Route → Attempt SimulatedMarket Decimal
  | .single leg => legMid now leg
  | .bridge first second => do
      let a ← legMid now first
      let b ← legMid now second
      Crash.arithmetic.unless (a.mul? b)

def price (pair : CurrencyPair) (clock : Except Crash Instant) :
    Attempt SimulatedMarket (Except FxError Rate) := do
  let settings := (← get).settings
  match settings.route? pair with
  | none => return .error (.unsupportedPair pair)
  | some route =>
      let now ← clock
      let mid ← routeMid now route
      return .ok (← Rate.make pair mid (settings.spreadOf route) settings.validity settings.name now)

def supports (m : SimulatedMarket) (pair : CurrencyPair) : Bool :=
  (m.settings.route? pair).isSome

def supportedPairs (m : SimulatedMarket) : List CurrencyPair :=
  CurrencyPair.sorted (m.settings.baseRates.map (·.pair))

def baseMid? (m : SimulatedMarket) (pair : CurrencyPair) : Option Decimal :=
  (m.settings.baseRate? pair).map (·.mid)

def offset? (m : SimulatedMarket) (pair : CurrencyPair) : Option Decimal :=
  m.walks[pair]?.map (·.offset)

/-- Sets the offset of a base rate. It must keep the rate positive. The offset of a walk that has
started is set before the clock is read. -/
def setDrift (pair : CurrencyPair) (offset : Decimal) (clock : Except Crash Instant) :
    Attempt SimulatedMarket (Except FxError Unit) := do
  let m ← get
  if (m.settings.baseRate? pair).isNone then return .error (.unsupportedPair pair)
  else if Decimal.one ≤ offset.abs then
    return .error (.invalidConfig s!"drift offset {offset} would make {pair} non-positive")
  else
    set { m with walks := m.walks.alter pair (Option.map ({ · with offset })) }
    let now ← clock
    set { m with walks := m.walks.insert pair ((m.walk pair now).override offset now) }
    return .ok ()

/-- Forgets every walk, random numbers included. -/
def resetDrift (m : SimulatedMarket) : SimulatedMarket := { m with walks := ∅ }

end SimulatedMarket

end Bureau
