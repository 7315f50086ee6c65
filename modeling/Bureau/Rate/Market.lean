import Bureau.Document.Basic
import Bureau.Error

/-!
Market rates of currency pairs, and rates with the house's margin taken off.
-/

set_option autoImplicit false

namespace Bureau

/-- A market rate: `bid` and `ask` lie around `mid` at half the spread each. -/
structure Rate where
  pair : CurrencyPair
  /-- Units of the target currency for one unit of the source currency. -/
  mid : Decimal
  bid : Decimal
  ask : Decimal
  /-- The distance from bid to ask in percent of mid. -/
  spreadPercent : Decimal
  /-- The name of the provider. -/
  source : String
  fetchedAt : Timestamp
  /-- The first time at which the rate is no longer quoted. -/
  validUntil : Timestamp
deriving DecidableEq

namespace Rate

/-- The rate with a mid and a spread, valid for a while from now. -/
def make (pair : CurrencyPair) (mid spreadPercent : Decimal) (validFor : Duration) (source : String)
    (now : Instant) : Except Crash Rate := do
  let half ← Crash.arithmetic.unless (spreadPercent.div? Decimal.twoHundred)
  let bid ← Crash.arithmetic.unless ((Decimal.one.sub? half).bind mid.mul?)
  let ask ← Crash.arithmetic.unless ((Decimal.one.add? half).bind mid.mul?)
  let validUntil ← Crash.calendar.unless (now.add? validFor)
  return { pair, mid, bid, ask, spreadPercent, source, fetchedAt := now, validUntil }

def isValid (r : Rate) (now : Instant) : Bool := !r.validUntil.isReached now

/-- The spread in hundredths of a percent; none for a mid of zero. -/
def spreadPoints (r : Rate) : Except Crash Decimal :=
  if r.mid.isZero then .ok Decimal.zero
  else
    Crash.arithmetic.unless do
      let width ← r.ask.sub? r.bid
      (← width.div? r.mid).mul? Decimal.tenThousand

/-- The names of the fields of a rate, in the order of its document. -/
def fieldNames : List String :=
  ["pair", "mid", "bid", "ask", "spread_percent", "source", "fetched_at", "valid_until"]

def members (r : Rate) : List (String × Json) :=
  [("pair", Document.encode r.pair), ("mid", Document.encode r.mid),
    ("bid", Document.encode r.bid), ("ask", Document.encode r.ask),
    ("spread_percent", Document.encode r.spreadPercent), ("source", Document.encode r.source),
    ("fetched_at", Document.encode r.fetchedAt), ("valid_until", Document.encode r.validUntil)]

instance : Document Rate where
  encode r := .record r.members
  decode? j := do
    let [pair, mid, bid, ask, spreadPercent, source, fetchedAt, validUntil] ←
      Document.fields? fieldNames j | none
    return ⟨← pair.required?, ← mid.required?, ← bid.required?, ← ask.required?,
      ← spreadPercent.required?, ← source.required?, ← fetchedAt.required?,
      ← validUntil.required?⟩

end Rate

/-- A market rate with a margin. The margin moves only the rate that the customer gets. -/
structure ExchangeRate where
  rate : Rate
  /-- The mid less the margin. -/
  buyRate : Decimal
  /-- The margin in percent of mid. -/
  marginPercent : Decimal
deriving DecidableEq

namespace ExchangeRate

def withMargin (rate : Rate) (marginPercent : Decimal) : Except Crash ExchangeRate := do
  let buyRate ← Crash.arithmetic.unless do
    let margin ← marginPercent.div? Decimal.hundred
    rate.mid.mul? (← Decimal.one.sub? margin)
  return { rate, buyRate, marginPercent }

def pair (r : ExchangeRate) : CurrencyPair := r.rate.pair
def mid (r : ExchangeRate) : Decimal := r.rate.mid
def validUntil (r : ExchangeRate) : Timestamp := r.rate.validUntil

end ExchangeRate

mutual

/-- Whether a value makes sense throughout, with at most `room` levels of arrays and objects. -/
def Json.isReadable (room : Nat) : Json → Bool
  | .null => true
  | .bool _ => true
  | .number n => n.value?.isSome
  | .text t => t.isSome
  | .array items => room ≠ 0 && areReadable (room - 1) items
  | .object members => room ≠ 0 && membersReadable (room - 1) members

def Json.areReadable (room : Nat) : List Json → Bool
  | [] => true
  | item :: rest => item.isReadable room && areReadable room rest

/-- Whether every member of an object makes sense, names included. -/
def Json.membersReadable (room : Nat) : List (Option String × Json) → Bool
  | [] => true
  | (name, value) :: rest => name.isSome && value.isReadable room && membersReadable room rest

end

namespace ExchangeRate

/-- Reads the flat form of an exchange rate, whose object holds the fields of the market rate too.
It is never an array, and every part of it must make sense, other fields included; `room` is how
deep they may go. -/
def decodeWithin? (room : Nat) (j : Json) : Option ExchangeRate := do
  let .object members := j | none
  let [buyRate, marginPercent] ← Document.fields? ["buy_rate", "margin_percent"] j | none
  if !Json.membersReadable room members then none
  else return ⟨← Document.decode? j, ← buyRate.required?, ← marginPercent.required?⟩

/-- How deep the fields of a document may go when they are kept before they are read. -/
def depthLimit : Nat := 126

instance : Document ExchangeRate where
  encode r := .record (r.rate.members ++
    [("buy_rate", Document.encode r.buyRate), ("margin_percent", Document.encode r.marginPercent)])
  decode? := decodeWithin? depthLimit

end ExchangeRate

end Bureau
