import Bureau.Rate.Market

/-!
Quotes: priced offers to turn an amount of one currency into another.
-/

set_option autoImplicit false

namespace Bureau

structure Quote where
  quoteId : Uuid
  sourceCurrency : Currency
  targetCurrency : Currency
  /-- What the customer sends, before fees. -/
  sourceAmount : Money
  /-- What is delivered. -/
  targetAmount : Money
  /-- The rate used, margin taken off. -/
  exchangeRate : Decimal
  midMarketRate : Decimal
  /-- The fee, in the source currency. -/
  fee : Money
  /-- The amount and the fee together. -/
  totalCost : Money
  validUntil : Timestamp
deriving DecidableEq

namespace Quote

/-- The names of the fields of a quote, in the order of its document. -/
def fieldNames : List String :=
  ["quote_id", "source_currency", "target_currency", "source_amount", "target_amount",
    "exchange_rate", "mid_market_rate", "fee", "total_cost", "valid_until"]

instance : Document Quote where
  encode q := .record
    [("quote_id", Document.encode q.quoteId),
      ("source_currency", Document.encode q.sourceCurrency),
      ("target_currency", Document.encode q.targetCurrency),
      ("source_amount", Document.encode q.sourceAmount),
      ("target_amount", Document.encode q.targetAmount),
      ("exchange_rate", Document.encode q.exchangeRate),
      ("mid_market_rate", Document.encode q.midMarketRate),
      ("fee", Document.encode q.fee), ("total_cost", Document.encode q.totalCost),
      ("valid_until", Document.encode q.validUntil)]
  decode? j := do
    let [quoteId, sourceCurrency, targetCurrency, sourceAmount, targetAmount, exchangeRate,
        midMarketRate, fee, totalCost, validUntil] ← Document.fields? fieldNames j | none
    return ⟨← quoteId.required?, ← sourceCurrency.required?, ← targetCurrency.required?,
      ← sourceAmount.required?, ← targetAmount.required?, ← exchangeRate.required?,
      ← midMarketRate.required?, ← fee.required?, ← totalCost.required?, ← validUntil.required?⟩

end Quote

end Bureau
