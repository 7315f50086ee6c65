import Bureau.Rate.Lock

/-!
The policy of the desk: how long rates are kept, which margin applies without a corridor, how long
the store may take, and the terms of locks.
-/

set_option autoImplicit false

namespace Bureau

/-- The settings of the desk. -/
structure Policy where
  /-- How long a rate is kept. -/
  rateLife : Duration
  /-- The margin in percent of pairs without a corridor. -/
  defaultMargin : Decimal
  /-- The time in which the store has to do its part. -/
  storeTimeout : Duration
  /-- The time between two batches of a feed when none is asked for. -/
  feedInterval : Duration
  lockTerms : LockTerms
deriving DecidableEq

namespace Policy

def standard : Policy where
  rateLife := Duration.ofMillis 30000
  defaultMargin := Decimal.threeTenths
  storeTimeout := Duration.ofMillis 500
  feedInterval := Duration.ofMillis 5000
  lockTerms := LockTerms.standard

def validate (p : Policy) : Except String Unit :=
  if p.rateLife ≤ Duration.zero then .error "Rate cache TTL must be positive"
  else if p.defaultMargin < Decimal.zero ∨ Decimal.hundred ≤ p.defaultMargin then
    .error "Default margin must be in [0, 100) percent"
  else if p.storeTimeout ≤ Duration.zero then .error "Store timeout must be positive"
  else if p.feedInterval ≤ Duration.zero then .error "Stream interval must be positive"
  else p.lockTerms.validate

end Policy

end Bureau
