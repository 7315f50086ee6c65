import Bureau.Text.Blank
import Bureau.Text.Quoted
import Bureau.Text.UpperCase

/-!
Currencies by their ISO 4217 codes, and ordered pairs of them. A code made from text is in upper case
but need not exist; a code read from a document is taken as it stands.
-/

set_option autoImplicit false

namespace Bureau

structure Currency where
  code : String
deriving DecidableEq, Hashable, Inhabited

/-- A text that is no currency code. -/
structure InvalidCode where
  raw : String

def InvalidCode.message (e : InvalidCode) : String :=
  "Invalid currency code: " ++ Text.quoted e.raw

namespace Currency

def ofCode (code : String) : Currency := ⟨Text.upperCase code⟩

def isLetter (c : Char) : Bool := ('a' ≤ c && c ≤ 'z') || ('A' ≤ c && c ≤ 'Z')

/-- Reads a code of three ASCII letters between white space. The length is that in bytes, which for
ASCII letters is their number. -/
def parse (text : String) : Except InvalidCode Currency :=
  let letters := Text.trim text.toList
  if (String.ofList letters).utf8ByteSize = 3 ∧ letters.all isLetter then
    .ok (ofCode (String.ofList letters))
  else .error ⟨text⟩

def decimalPlaces (c : Currency) : Nat :=
  if c.code ∈ ["JPY", "KRW", "VND", "IDR"] then 0
  else if c.code ∈ ["BHD", "KWD", "OMR"] then 3
  else 2

instance : ToString Currency := ⟨code⟩

def usd : Currency := ofCode "USD"
def eur : Currency := ofCode "EUR"
def gbp : Currency := ofCode "GBP"
def sgd : Currency := ofCode "SGD"
def php : Currency := ofCode "PHP"
def jpy : Currency := ofCode "JPY"

end Currency

/-- A source currency that is sold for a target currency. -/
structure CurrencyPair where
  source : Currency
  target : Currency
deriving DecidableEq, Hashable, Inhabited

namespace CurrencyPair

def ofCodes (source target : String) : CurrencyPair :=
  ⟨Currency.ofCode source, Currency.ofCode target⟩

def inverse (p : CurrencyPair) : CurrencyPair := ⟨p.target, p.source⟩

def isIdentity (p : CurrencyPair) : Bool := p.source == p.target

def text (p : CurrencyPair) : String := p.source.code ++ "/" ++ p.target.code

instance : ToString CurrencyPair := ⟨text⟩

def order (p q : CurrencyPair) : Ordering :=
  if p.source.code < q.source.code then .lt
  else if q.source.code < p.source.code then .gt
  else if p.target.code < q.target.code then .lt
  else if q.target.code < p.target.code then .gt
  else .eq

def insertOrdered (p : CurrencyPair) : List CurrencyPair → List CurrencyPair
  | [] => [p]
  | q :: rest => if p.order q = .gt then q :: insertOrdered p rest else p :: q :: rest

def sorted (ps : List CurrencyPair) : List CurrencyPair := ps.foldr insertOrdered []

end CurrencyPair

end Bureau
