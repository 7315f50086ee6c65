import Bureau.Corridor.Basic

/-!
The table of corridors, which holds at most one for each pair.
-/

set_option autoImplicit false

namespace Bureau

/-- A table of corridors in the order they were given, with the position of each pair. -/
structure Registry where
  corridors : List Corridor
  /-- The positions of the pairs, the last one first. -/
  index : List (CurrencyPair × Nat)

namespace Registry

def empty : Registry := ⟨[], []⟩

/-- Adds a corridor at the end. It must be valid and its pair new. -/
def add (r : Registry) (c : Corridor) : Except FxError Registry := do
  c.validate
  if r.index.any (fun entry => entry.1 == c.pair) then
    throw (.invalidConfig s!"duplicate corridor {c.pair}")
  return ⟨r.corridors ++ [c], (c.pair, r.corridors.length) :: r.index⟩

/-- The table of a list, or the error of its first faulty corridor. -/
def ofList (corridors : List Corridor) : Except FxError Registry := corridors.foldlM add empty

def ofText (text : String) : Except FxError Registry :=
  match Document.read? (α := List Corridor) text with
  | some corridors => ofList corridors
  | none => .error (.unreadable "no list of corridors")

def find? (r : Registry) (pair : CurrencyPair) : Option Corridor :=
  (r.index.find? (fun entry => entry.1 == pair)).bind fun entry => r.corridors[entry.2]?

def list (r : Registry) : Option Currency → List Corridor
  | none => r.corridors
  | some source => r.corridors.filter (·.sourceCurrency == source)

def size (r : Registry) : Nat := r.corridors.length

def isEmpty (r : Registry) : Bool := r.corridors.isEmpty

end Registry

/-- A corridor of the standard table; fees and margins in tenths of a percent, the least fee in
hundredths. -/
private def standardCorridor (source target : String) (fee minimum margin : Nat)
    (methods : List String) : Corridor where
  sourceCurrency := Currency.ofCode source
  targetCurrency := Currency.ofCode target
  enabled := true
  feePercentage := (Decimal.ofParts? fee 1).getD Decimal.zero
  feeMinimum := ⟨(Decimal.ofParts? minimum 2).getD Decimal.zero, Currency.ofCode source⟩
  marginPercentage := (Decimal.ofParts? margin 1).getD Decimal.zero
  allowedPayoutMethods := TextSet.ofList methods

def standardCorridors : List Corridor :=
  [standardCorridor "SGD" "PHP" 5 300 3 ["bank_transfer", "mobile_wallet", "cash_pickup"],
    standardCorridor "SGD" "IDR" 5 300 4 ["bank_transfer", "mobile_wallet"],
    standardCorridor "SGD" "INR" 4 250 3 ["bank_transfer"],
    standardCorridor "USD" "PHP" 7 499 5 ["bank_transfer", "cash_pickup"],
    standardCorridor "USD" "MXN" 6 399 4 ["bank_transfer", "cash_pickup"],
    standardCorridor "GBP" "INR" 5 200 3 ["bank_transfer"]]

def Registry.standard : Except FxError Registry := Registry.ofList standardCorridors

end Bureau
