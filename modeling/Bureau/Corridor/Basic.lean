import Bureau.Document.Basic
import Bureau.Error

/-!
Corridors: the pricing of one currency pair, with the payout methods it allows.
-/

set_option autoImplicit false

namespace Bureau

/-- A set of texts, listed in ascending order. -/
structure TextSet where
  items : List String
  ascending : items.Pairwise (· < ·)
deriving DecidableEq

namespace TextSet

def empty : TextSet := ⟨[], .nil⟩

def insertItem (s : String) : List String → List String
  | [] => [s]
  | t :: rest => if s = t then t :: rest else if s < t then s :: t :: rest else t :: insertItem s rest

private theorem mem_insertItem {s t : String} {items : List String} (h : t ∈ insertItem s items) :
    t = s ∨ t ∈ items := by
  induction items with
  | nil => simpa [insertItem] using h
  | cons u rest ih =>
    unfold insertItem at h
    split at h
    · exact .inr h
    · split at h
      · simpa using h
      · rcases List.mem_cons.1 h with rfl | h
        · simp
        · rcases ih h with h | h
          · exact .inl h
          · exact .inr (List.mem_cons_of_mem _ h)

private theorem ascending_insertItem (s : String) {items : List String} (h : items.Pairwise (· < ·)) :
    (insertItem s items).Pairwise (· < ·) := by
  induction items with
  | nil => simp [insertItem]
  | cons u rest ih =>
    obtain ⟨hu, hrest⟩ := List.pairwise_cons.1 h
    unfold insertItem
    split
    · exact h
    · rename_i hne
      split
      · rename_i hlt
        refine List.pairwise_cons.2 ⟨fun t ht => ?_, h⟩
        rcases List.mem_cons.1 ht with rfl | ht
        · exact hlt
        · exact String.lt_trans hlt (hu t ht)
      · rename_i hge
        refine List.pairwise_cons.2 ⟨fun t ht => ?_, ih hrest⟩
        rcases mem_insertItem ht with rfl | ht
        · rcases String.le_total t u with hle | hle
          · exact absurd (String.le_antisymm hle (String.not_lt.1 hge)) hne
          · exact Decidable.byContradiction fun hn =>
              hne (String.le_antisymm (String.not_lt.1 hn) hle)
        · exact hu t ht

def insert (set : TextSet) (s : String) : TextSet :=
  ⟨insertItem s set.items, ascending_insertItem s set.ascending⟩

def ofList (items : List String) : TextSet := items.foldl insert empty

def contains (set : TextSet) (s : String) : Bool := set.items.contains s

instance : Document TextSet where
  encode set := Document.encode set.items
  decode? j := (Document.decode? j).map ofList

end TextSet

structure Corridor where
  sourceCurrency : Currency
  targetCurrency : Currency
  enabled : Bool
  /-- The fee in percent of the source amount. -/
  feePercentage : Decimal
  /-- The least fee, in the source currency. -/
  feeMinimum : Money
  /-- The margin in percent of mid. -/
  marginPercentage : Decimal
  allowedPayoutMethods : TextSet
deriving DecidableEq

namespace Corridor

def pair (c : Corridor) : CurrencyPair := ⟨c.sourceCurrency, c.targetCurrency⟩

def isMethodAllowed (c : Corridor) (method : String) : Bool :=
  c.allowedPayoutMethods.contains method

def validate (c : Corridor) : Except FxError Unit :=
  if c.pair.isIdentity then
    .error (.invalidConfig s!"corridor {c.pair} maps a currency to itself")
  else if c.feePercentage < Decimal.zero ∨ c.marginPercentage < Decimal.zero then
    .error (.invalidConfig s!"corridor {c.pair} has a negative fee or margin")
  else if Decimal.hundred ≤ c.marginPercentage then
    .error (.invalidConfig s!"corridor {c.pair} margin must be below 100%")
  else if c.feeMinimum.currency ≠ c.sourceCurrency then
    .error (.invalidConfig
      s!"corridor {c.pair} fee minimum is in {c.feeMinimum.currency}, expected {c.sourceCurrency}")
  else .ok ()

/-- The names of the fields of a corridor, in the order of its document. -/
def fieldNames : List String :=
  ["source_currency", "target_currency", "enabled", "fee_percentage", "fee_minimum",
    "margin_percentage", "allowed_payout_methods"]

instance : Document Corridor where
  encode c := .record
    [("source_currency", Document.encode c.sourceCurrency),
      ("target_currency", Document.encode c.targetCurrency),
      ("enabled", Document.encode c.enabled),
      ("fee_percentage", Document.encode c.feePercentage),
      ("fee_minimum", Document.encode c.feeMinimum),
      ("margin_percentage", Document.encode c.marginPercentage),
      ("allowed_payout_methods", Document.encode c.allowedPayoutMethods)]
  decode? j := do
    let [source, target, enabled, fee, minimum, margin, methods] ←
      Document.fields? fieldNames j | none
    return ⟨← source.required?, ← target.required?, ← enabled.required?, ← fee.required?,
      ← minimum.required?, ← margin.required?, ← methods.withDefault? TextSet.empty⟩

end Corridor

end Bureau
