import Bureau.Binary64.Shortest
import Bureau.Json.Reader
import Bureau.Json.Writer
import Bureau.Money.Amount
import Bureau.Money.Identifier
import Bureau.Time.Text

/-!
Documents: values that are kept as JSON. A record is written as an object with its fields in order;
it is read from an object in any order or from an array in order. Fields of other names are skipped
unread, and a field that stands twice is refused.
-/

set_option autoImplicit false

namespace Bureau

/-- Values with a form as documents. -/
class Document (α : Type) where
  encode : α → Json
  decode? : Json → Option α

namespace Document

def write {α : Type} [Document α] (a : α) : String := (encode a).write

def read? {α : Type} [Document α] (s : String) : Option α := (Json.parse? s).bind decode?

/-! ### Records -/

/-- What a record says of one field: its value, or nothing. An array that ends before the field is
told apart from an object without it. -/
inductive Field where
  | present (value : Json)
  | omitted
  | beyond

def member? (name : String) : List (Option String × Json) → Option Field
  | [] => some .omitted
  | (key, value) :: rest =>
      if key = some name then
        if rest.any (fun m => m.1 == some name) then none else some (.present value)
      else member? name rest

def positions : List String → List Json → Option (List Field)
  | [], [] => some []
  | [], _ :: _ => none
  | _ :: names, [] => (positions names []).map (.beyond :: ·)
  | _ :: names, item :: items => (positions names items).map (.present item :: ·)

def fields? (names : List String) : Json → Option (List Field)
  | .object members =>
      if members.all (fun m => m.1.isSome) then names.mapM (member? · members) else none
  | .array items => positions names items
  | _ => none

def Field.required? {α : Type} [Document α] : Field → Option α
  | .present value => decode? value
  | _ => none

/-- The value of a field that may be null, or absent from an object. -/
def Field.optional? {α : Type} (read : Json → Option α) : Field → Option (Option α)
  | .present .null => some none
  | .present value => (read value).map some
  | .omitted => some none
  | .beyond => none

def Field.withDefault? {α : Type} [Document α] (default : α) : Field → Option α
  | .present value => decode? value
  | _ => some default

def encodeOption {α : Type} [Document α] : Option α → Json
  | some a => encode a
  | none => .null

/-! ### Plain values -/

instance : Document String where
  encode := Json.str
  decode?
    | .text t => t
    | _ => none

instance : Document Bool where
  encode := Json.bool
  decode?
    | .bool b => some b
    | _ => none

instance {α : Type} [Document α] : Document (List α) where
  encode as := .array (as.map encode)
  decode?
    | .array items => items.mapM decode?
    | _ => none

instance : Document Decimal where
  encode a := .str a.text
  decode?
    | .text t => t.bind Decimal.parse?
    | .number n =>
        match n.value? with
        | some (.whole i) => Decimal.ofParts? i 0
        | some (.floating x) => x.toDecimal?
        | none => none
    | _ => none

instance : Document Timestamp where
  encode t := .str t.text
  decode?
    | .text t => t.bind Timestamp.parse?
    | _ => none

instance : Document Uuid where
  encode u := .str u.text
  decode?
    | .text t => t.bind Uuid.parse?
    | _ => none

instance : Document LockId where
  encode id := .str id.text
  decode? j := (decode? j).map LockId.mk

instance : Document Currency where
  encode c := .str c.code
  decode? j := (decode? j).map Currency.mk

instance : Document CurrencyPair where
  encode p := .record [("source", encode p.source), ("target", encode p.target)]
  decode? j := do
    let [source, target] ← fields? ["source", "target"] j | none
    return ⟨← source.required?, ← target.required?⟩

instance : Document Money where
  encode m := .record [("value", encode m.value), ("currency", encode m.currency)]
  decode? j := do
    let [value, currency] ← fields? ["value", "currency"] j | none
    return ⟨← value.required?, ← currency.required?⟩

end Document

end Bureau
