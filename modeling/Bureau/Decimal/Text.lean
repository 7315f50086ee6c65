import Bureau.Decimal.Arithmetic
import Bureau.Text.Digits

/-!
The text of decimals. Printing shows every place of the scale. Reading takes an optional sign and
digits with at most one point, with underscores after the first digit, and keeps the places read; the
first digit without room rounds the last place. A number can also be read with an exponent.
-/

set_option autoImplicit false

namespace Bureau.Decimal

open Bureau.Text

/-- The digits of a coefficient with a point before the last `scale` of them. -/
def pointed (size scale : Nat) : List Char :=
  if scale = 0 then digits size
  else
    digits (size / tenTo scale) ++ '.' :: paddedDigits scale (size % tenTo scale)

/-- The characters of a number: a sign if it is negative, then all digits of its scale. -/
def chars (a : Decimal) : List Char :=
  if a.negative then '-' :: pointed a.size a.scale else pointed a.size a.scale

def text (a : Decimal) : String := String.ofList a.chars

instance : ToString Decimal := ⟨text⟩

/-! ### Reading digits -/

/-- What has been read of a number: whether a point or a digit was seen, and the digits so far. -/
structure Reading where
  point : Bool := false
  digit : Bool := false
  size : Nat := 0
  scale : Nat := 0

/-- Whether digits could still follow if there were room: a digit or an underscore. -/
def isMoreDigits (c : Char) : Bool := isDigit c || c == '_'

/-- The end of a number whose next digit has no room: a digit from five up rounds the last place up,
an underscore counts as a zero, and no more than digits and underscores may follow. -/
def roundTail (r : Reading) (next : Char) (rest : List Char) : Option (Nat × Nat) :=
  let size := if isDigit next && 5 ≤ digitValue next then r.size + 1 else r.size
  if !(next :: rest).all isMoreDigits then none
  else if size < twoTo 96 then some (size, r.scale)
  else if r.scale = 0 then none
  else some ((size + 4) / 10, r.scale - 1)

/-- From which size of the digits before the last one a number counts as long. -/
def longFrom : Nat := (twoTo 64 - 1) / 10 - 255

/-- The end of a number with all 28 places: the next digit rounds. In a long number one underscore
before that digit is passed over. -/
def fullTail (r : Reading) (next : Char) (rest : List Char) : Option (Nat × Nat) :=
  if longFrom ≤ r.size / 10 && next == '_' then
    match rest with
    | [] => some (r.size, r.scale)
    | c :: rest => roundTail r c rest
  else
    roundTail r next rest

/-- Reads digits, points and underscores to the end, as the digits read and their scale. -/
def readDigits (r : Reading) : List Char → Option (Nat × Nat)
  | [] => if r.digit then some (r.size, r.scale) else none
  | c :: rest =>
      if r.point && r.scale = maxScale then fullTail r c rest
      else if isDigit c then
        let size := 10 * r.size + digitValue c
        if size < twoTo 96 then
          readDigits ⟨r.point, true, size, if r.point then r.scale + 1 else 0⟩ rest
        else if r.point then roundTail r c rest
        else none
      else if c = '.' && !r.point then readDigits { r with point := true } rest
      else if c = '_' && r.digit then readDigits r rest
      else none

def ofPlain? : List Char → Option Decimal
  | '-' :: cs => do let (size, scale) ← readDigits {} cs; ofParts? (-(size : Int)) scale
  | '+' :: cs => do let (size, scale) ← readDigits {} cs; ofParts? size scale
  | cs => do let (size, scale) ← readDigits {} cs; ofParts? size scale

/-! ### Exponents -/

/-- The number times a power of ten of at most 28: places are given up first, then zeros are
added. -/
def scaleUp? (a : Decimal) (power : Nat) : Option Decimal :=
  if power ≤ a.scale then ofParts? a.coefficient (a.scale - power)
  else do
    let ten ← ofParts? (tenTo power) 0
    return (← a.mul? ten).normalize

/-- The number divided by a power of ten of at most 28. Places beyond the last are dropped, the first
of them from five up rounding the last place away from zero; the sign stays. -/
def scaleDown? (a : Decimal) (power : Nat) : Option Decimal :=
  let places := a.scale + power
  let size :=
    if places ≤ maxScale then a.size
    else (a.size / tenTo (places - maxScale - 1) + 5) / 10
  (ofParts? size (Nat.min places maxScale)).map (·.withSign a.negative)

/-- Reads a number with an exponent of at most 28 in size, such as `1.5e-3`. -/
def ofScientific? (cs : List Char) : Option Decimal :=
  let isMark := fun c : Char => c == 'e' || c == 'E'
  match cs.dropWhile (fun c => !isMark c) with
  | [] => none
  | _ :: exponent => do
      let base ← ofPlain? (cs.takeWhile fun c => !isMark c)
      match exponent with
      | '-' :: ds => base.scaleDown? (← readNat? (maxScale + 1) ds)
      | ds => base.scaleUp? (← readNat? (maxScale + 1) ds)

def ofChars? (cs : List Char) : Option Decimal := (ofPlain? cs).or (ofScientific? cs)

def parse? (s : String) : Option Decimal := ofChars? s.toList

end Bureau.Decimal
