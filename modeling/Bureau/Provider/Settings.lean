import Bureau.Provider.Walk

/-!
The settings of a simulated market: base rates, spreads, bridges and drift, and what makes them
acceptable.
-/

set_option autoImplicit false

namespace Bureau

/-- The mid of a pair before drift. -/
structure BaseRate where
  pair : CurrencyPair
  mid : Decimal
  /-- The spread in percent, if the pair has its own. -/
  spreadPercent : Option Decimal
deriving DecidableEq

/-- The settings of a simulated market. -/
structure MarketSettings where
  name : String
  baseRates : List BaseRate
  /-- The spread in percent of pairs without their own. -/
  defaultSpread : Decimal
  /-- The currencies that join two base rates, in the order they are tried. -/
  bridges : List Currency
  /-- Whether a base rate also prices the reversed pair. -/
  allowInversion : Bool
  /-- How long a rate is quoted. -/
  validity : Duration
  drift : Drift
  /-- The seed of the random steps, for a market that can be repeated. -/
  seed : Option UInt64
deriving DecidableEq

namespace MarketSettings

/-- A base rate of the standard market, its mid in ten-thousandths of `10 ^ places` and its spread
in tenths of a percent. -/
private def standardRate (source target : String) (mid places spread : Nat) : BaseRate where
  pair := CurrencyPair.ofCodes source target
  mid := (Decimal.ofParts? mid places).getD Decimal.one
  spreadPercent := Decimal.ofParts? spread 1

def standard : MarketSettings where
  name := "SIMULATED"
  baseRates :=
    [standardRate "SGD" "PHP" 4250 2 10, standardRate "USD" "SGD" 13450 4 4,
      standardRate "USD" "PHP" 5620 2 8, standardRate "USD" "IDR" 15850 0 10,
      standardRate "USD" "INR" 8320 2 6, standardRate "USD" "MXN" 1710 2 8,
      standardRate "USD" "JPY" 15130 2 3, standardRate "GBP" "USD" 12700 4 3,
      standardRate "EUR" "USD" 10850 4 3]
  defaultSpread := Decimal.half
  bridges := [Currency.usd]
  allowInversion := true
  validity := Duration.ofMillis 30000
  drift := Drift.standard
  seed := none

/-- Whether a spread lies strictly between 0 and 200 percent. -/
def isSpread (s : Decimal) : Bool := Decimal.zero < s && s < Decimal.twoHundred

/-- Accepts base rates, given the pairs before them, or says what is wrong with the first faulty
one. -/
def validateRates (seen : List CurrencyPair) : List BaseRate → Except String Unit
  | [] => .ok ()
  | base :: rest =>
      if base.pair.isIdentity then .error s!"Base rate {base.pair} maps a currency to itself"
      else if base.mid ≤ Decimal.zero then .error s!"Base rate {base.pair} must be positive"
      else if !base.spreadPercent.all isSpread then
        .error s!"Spread for {base.pair} must be between 0 and 200 percent"
      else if base.pair ∈ seen then .error s!"Duplicate base rate {base.pair}"
      else validateRates (base.pair :: seen) rest

def validate (s : MarketSettings) : Except String Unit := do
  if !isSpread s.defaultSpread then throw "Default spread must be between 0 and 200 percent"
  validateRates [] s.baseRates
  if s.drift.maxStep < Decimal.zero then throw "Drift step cannot be negative"
  if s.drift.maxOffset < Decimal.zero ∨ Decimal.one ≤ s.drift.maxOffset then
    throw "Drift bound must be in [0, 1)"
  if s.drift.interval < Duration.zero then throw "Drift interval cannot be negative"
  if s.validity ≤ Duration.zero then throw "Quote validity must be positive"

def baseRate? (s : MarketSettings) (pair : CurrencyPair) : Option BaseRate :=
  s.baseRates.find? (·.pair == pair)

end MarketSettings

end Bureau
