import Bureau.Corridor.Registry
import Bureau.Desk.Policy
import Bureau.Program.Basic
import Bureau.Program.Records
import Bureau.Rate.Quote

/-!
The desk: rates with the house's margin, locks and quotes. Rates come from the records while they
are valid and from the provider otherwise; trouble with the records never stops pricing. Locks are
only given once they are on record.
-/

set_option autoImplicit false

namespace Bureau

structure Desk where
  registry : Registry
  policy : Policy

namespace Desk

def consult {α : Type} (d : Desk) (operation : String) (q : ExceptT FxError Query α) :
    ExceptT FxError Program α := do
  let timeout := d.policy.storeTimeout
  let tick ← ExceptT.lift (Program.deadline timeout.timerMillis Program.done)
  match ← ExceptT.lift (Program.within tick q.run) with
  | some (.ok a) => return a
  | some (.error e) => throw e
  | none => throw (.timeout s!"{operation} exceeded {timeout.wholeMillis}ms")

def marginOf (d : Desk) (pair : CurrencyPair) : Decimal :=
  match d.registry.find? pair with
  | some corridor => corridor.marginPercentage
  | none => d.policy.defaultMargin

def withMargin (d : Desk) (rate : Rate) : Except Crash ExchangeRate :=
  ExchangeRate.withMargin rate (d.marginOf rate.pair)

/-! ### Rates -/

/-- The rate on record, if it can be read in time and is still valid. -/
def rateOnRecord (d : Desk) (pair : CurrencyPair) : Program (Option Rate) := do
  match ← (d.consult "get_rate" (Records.findRate pair)).run with
  | .ok (some rate) => return if rate.isValid (← Program.now) then some rate else none
  | _ => return none

def recordRate (d : Desk) (rate : Rate) : Program Unit := do
  let _ ← (d.consult "save_rate" (Records.saveRate rate d.policy.rateLife)).run
  return ()

/-- The market rate of a pair: the one on record, or a new one from the provider. -/
def marketRate (d : Desk) (pair : CurrencyPair) : ExceptT FxError Program Rate := do
  match ← ExceptT.lift (d.rateOnRecord pair) with
  | some rate => return rate
  | none =>
      match ← ExceptT.lift (Program.rateOf pair) with
      | .error e => throw e
      | .ok rate =>
          ExceptT.lift (d.recordRate rate)
          return rate

def rate (d : Desk) (pair : CurrencyPair) : ExceptT FxError Program ExchangeRate := do
  let rate ← d.marketRate pair
  ExceptT.lift (Program.lift (d.withMargin rate))

def ratesOnRecord (d : Desk) : List CurrencyPair → Program (List (CurrencyPair × Option Rate))
  | [] => return []
  | pair :: rest => do
      let rate ← d.rateOnRecord pair
      return (pair, rate) :: (← d.ratesOnRecord rest)

def recordRates (d : Desk) : List Rate → Program Unit
  | [] => return ()
  | rate :: rest => do
      d.recordRate rate
      d.recordRates rest

/-- New rates from the provider, put on record; an empty batch is not asked for. -/
def newRates (d : Desk) (pairs : List CurrencyPair) : Program (List Rate) := do
  if pairs.isEmpty then return []
  else
    let rates ← Program.ratesOf pairs
    d.recordRates rates
    return rates

/-- The rate of a pair among new rates and rates on record. Of new rates the last one counts. -/
def pick? (new : List Rate) (known : List (CurrencyPair × Option Rate)) (pair : CurrencyPair) :
    Option Rate :=
  (new.reverse.find? (·.pair == pair)).or ((known.find? (·.1 == pair)).bind (·.2))

/-- The customer's rates of several pairs, in the order they are asked for. Pairs that cannot be
priced are left out; each pair is looked up once. -/
def rates (d : Desk) (pairs : List CurrencyPair) : Program (List ExchangeRate) := do
  let known ← d.ratesOnRecord pairs.eraseDups
  let new ← d.newRates ((known.filter (·.2.isNone)).map (·.1))
  Program.lift ((pairs.filterMap (pick? new known)).mapM d.withMargin)

/-! ### Locks -/

def lock (d : Desk) (pair : CurrencyPair) (seconds : Int) : ExceptT FxError Program LockedRate := do
  let length ← ExceptT.lift (Program.lift (d.policy.lockTerms.clampLength seconds))
  let rate ← d.rate pair
  let now ← ExceptT.lift Program.now
  let id ← ExceptT.lift Program.fresh
  let lock ← ExceptT.lift (Program.lift (LockedRate.make (.ofUuid id) rate length now))
  d.consult "save_locked_rate" (Records.saveLock lock)
  return lock

/-- The lock with an id. One that is unknown, deleted, unreadable or lapsed is gone. -/
def findLock (d : Desk) (id : LockId) : ExceptT FxError Program LockedRate := do
  match ← ExceptT.lift (d.consult "get_locked_rate" (Records.findLock id)).run with
  | .ok (some lock) =>
      match lock.honouredUntil with
      | none => return .gone id
      | some expiry =>
          return if expiry.isReached (← ExceptT.lift Program.now) then .gone id else lock
  | .ok none => return .gone id
  | .error (.unreadable _) => return .gone id
  | .error e => throw e

def deleteLock (d : Desk) (id : LockId) : ExceptT FxError Program Unit :=
  d.consult "delete_locked_rate" (Records.deleteLock id)

/-- Moves the expiry of a lock that is honoured by a grace, up to the greatest one. -/
def extendLock (d : Desk) (id : LockId) (grace : Duration) :
    ExceptT FxError Program LockedRate := do
  let lock ← d.findLock id
  let grace := grace.min d.policy.lockTerms.maxGrace
  match lock.honouredUntil with
  | none => return lock
  | some expiry =>
      if grace ≤ Duration.zero then return lock
      else
        let later ← ExceptT.lift (Program.lift (Crash.calendar.unless (expiry.add? grace)))
        if ← d.consult "extend_locked_rate" (Records.extendLock lock.lockId later) then
          return { lock with expiresAt := some later }
        else return .gone lock.lockId

/-! ### Quotes -/

/-- The fee for an amount: a part of it, or the least fee if that is more. -/
def feeFor (corridor : Corridor) (amount : Money) : ExceptT FxError (Except Crash) Money := do
  let factor ← ExceptT.lift
    (Crash.arithmetic.unless (corridor.feePercentage.div? Decimal.hundred))
  match amount.mul? factor with
  | none => throw (.invalidAmount s!"source amount {amount.value} is too large to price")
  | some fee =>
      match fee.max corridor.feeMinimum with
      | .ok fee => return fee.round
      | .error mismatch => throw (.currencyMismatch mismatch)

/-- The quote for an amount at a rate, before it has an identifier. -/
def quoteAt (corridor : Corridor) (rate : ExchangeRate) (pair : CurrencyPair) (amount : Decimal) :
    ExceptT FxError (Except Crash) (Uuid → Quote) := do
  let tooLarge := FxError.invalidAmount s!"source amount {amount} is too large to price"
  let sourceAmount : Money := ⟨amount, pair.source⟩
  let fee ← feeFor corridor sourceAmount
  let some targetAmount := (Money.mk amount pair.target).mul? rate.buyRate | throw tooLarge
  match sourceAmount.add? fee with
  | .error mismatch => throw (.currencyMismatch mismatch)
  | .ok none => throw tooLarge
  | .ok (some totalCost) =>
      return fun quoteId =>
        { quoteId, sourceCurrency := pair.source, targetCurrency := pair.target, sourceAmount,
          targetAmount := targetAmount.round, exchangeRate := rate.buyRate,
          midMarketRate := rate.mid, fee, totalCost, validUntil := rate.validUntil }

def corridorFor (d : Desk) (pair : CurrencyPair) (amount : Decimal) : Except FxError Corridor :=
  if amount ≤ Decimal.zero then
    .error (.invalidAmount s!"source amount must be positive, got {amount}")
  else
    match d.registry.find? pair with
    | none => .error (.corridorNotFound pair)
    | some corridor => if corridor.enabled then .ok corridor else .error (.corridorDisabled pair)

def quote (d : Desk) (pair : CurrencyPair) (amount : Decimal) : ExceptT FxError Program Quote := do
  let corridor ← d.corridorFor pair amount
  let rate ← d.rate pair
  let quote ← ExceptT.mk (Program.lift (quoteAt corridor rate pair amount).run)
  return quote (← ExceptT.lift Program.fresh)

def corridors (d : Desk) (source : Option Currency) : List Corridor := d.registry.list source

def health (d : Desk) : ExceptT FxError Program Unit := d.consult "health" Records.health

end Desk

end Bureau
