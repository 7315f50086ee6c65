import Bureau.Provider.Settings

/-!
Routes: how a pair is priced from base rates. A base rate prices its pair and, if allowed, the
reversed pair; other pairs are joined from two such legs over a bridge currency.
-/

set_option autoImplicit false

namespace Bureau

/-- A base rate as it stands or reversed. -/
inductive Leg where
  | direct (base : BaseRate)
  | inverse (base : BaseRate)
deriving DecidableEq

def Leg.base : Leg → BaseRate
  | .direct base => base
  | .inverse base => base

/-- One leg, or two legs that meet in a bridge currency. -/
inductive Route where
  | single (leg : Leg)
  | bridge (first second : Leg)
deriving DecidableEq

def Route.legs : Route → List Leg
  | .single leg => [leg]
  | .bridge first second => [first, second]

namespace MarketSettings

/-- The leg for a pair: its own base rate before that of the reversed pair. -/
def leg? (s : MarketSettings) (pair : CurrencyPair) : Option Leg :=
  match s.baseRate? pair with
  | some base => some (.direct base)
  | none => if s.allowInversion then (s.baseRate? pair.inverse).map .inverse else none

def bridge? (s : MarketSettings) (pair : CurrencyPair) (middle : Currency) : Option Route := do
  if middle = pair.source ∨ middle = pair.target then none
  else return .bridge (← s.leg? ⟨pair.source, middle⟩) (← s.leg? ⟨middle, pair.target⟩)

/-- The route for a pair: a single leg, or else the first bridge that works. -/
def route? (s : MarketSettings) (pair : CurrencyPair) : Option Route :=
  if pair.isIdentity then none
  else
    match s.leg? pair with
    | some leg => some (.single leg)
    | none => s.bridges.findSome? (s.bridge? pair)

def spreadOf (s : MarketSettings) : Route → Decimal
  | .single leg => leg.base.spreadPercent.getD s.defaultSpread
  | .bridge _ _ => s.defaultSpread

end MarketSettings

end Bureau
