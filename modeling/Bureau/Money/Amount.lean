import Bureau.Decimal.Text
import Bureau.Money.Currency

/-!
Amounts of money: a decimal value in a currency. Operations on two amounts ask for one currency.
-/

set_option autoImplicit false

namespace Bureau

structure Money where
  value : Decimal
  currency : Currency
deriving DecidableEq

/-- Two amounts of different currencies where one currency is needed. -/
structure CurrencyMismatch where
  expected : Currency
  actual : Currency
deriving DecidableEq

def CurrencyMismatch.message (e : CurrencyMismatch) : String :=
  s!"Currency mismatch: expected {e.expected}, got {e.actual}"

namespace Money

def text (m : Money) : String := s!"{m.value} {m.currency}"

instance : ToString Money := ⟨text⟩

/-- The amount rounded half to even to the smallest unit of its currency. -/
def round (m : Money) : Money := { m with value := m.value.roundTo m.currency.decimalPlaces }

def max (a b : Money) : Except CurrencyMismatch Money :=
  if a.currency = b.currency then .ok (if a.value < b.value then b else a)
  else .error ⟨a.currency, b.currency⟩

def mul? (m : Money) (factor : Decimal) : Option Money :=
  (m.value.mul? factor).map fun value => { m with value }

def add? (a b : Money) : Except CurrencyMismatch (Option Money) :=
  if a.currency = b.currency then .ok ((a.value.add? b.value).map fun value => { a with value })
  else .error ⟨a.currency, b.currency⟩

/-- Whether two amounts have the same value and currency; the scales may differ. -/
def sameAmount (a b : Money) : Bool := a.value.sameValue b.value && a.currency == b.currency

end Money

end Bureau
