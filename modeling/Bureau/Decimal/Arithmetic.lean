import Bureau.Decimal.Basic

/-!
Arithmetic on decimals. A result that needs more than 96 bits or 28 places is rounded half to even
to the most places that fit; `none` means that even the whole part does not fit, or a division by
zero.
-/

set_option autoImplicit false

namespace Bureau.Decimal

/-! ### Sums and products -/

/-- The sum at the greater scale. A zero leaves the other operand as it is, scale included. -/
def add? (a b : Decimal) : Option Decimal :=
  if a.isZero then some b
  else if b.isZero then some a
  else
    let scale := Nat.max a.scale b.scale
    nearest?
      (a.coefficient * tenTo (scale - a.scale) + b.coefficient * tenTo (scale - b.scale))
      (tenTo scale) scale

/-- The difference, as the sum with the sign turned, unless it is that of a zero. -/
def sub? (a b : Decimal) : Option Decimal := a.add? (if b.isZero then b else b.neg)

def isShort (a : Decimal) : Bool := a.size < twoTo 32

/-- The product at the sum of the scales. A zero operand gives a plain zero, and so do two short
operands whose scales add up to more than 47. A product that rounds to zero keeps its sign unless
both operands are short. -/
def mul? (a b : Decimal) : Option Decimal :=
  let scale := a.scale + b.scale
  let product := nearest? (a.coefficient * b.coefficient) (tenTo scale) (Nat.min maxScale scale)
  if a.isZero || b.isZero then some zero
  else if a.isShort && b.isShort then if 47 < scale then some zero else product
  else product.map (·.withSign (a.negative != b.negative))

/-! ### Quotients -/

/-- The quotient written out nine places at a time: with the fewest groups, at least one and at most
six, that leave no remainder. `none` where six groups are too few or the number does not fit. -/
def writtenOut? (a b : Decimal) : Option Decimal :=
  (List.range 6).findSome? fun k =>
    let places := a.scale + 9 * (k + 1)
    let coefficient := a.coefficient * tenTo (9 * (k + 1))
    if coefficient % b.coefficient = 0 then
      ofParts? (coefficient / b.coefficient * tenTo (b.scale - places)) (places - b.scale)
    else
      none

/-- The quotient. Coefficients that divide evenly keep the difference of the scales. A quotient that
ends is written out in groups of nine places and then loses some of its trailing zeros; any other
takes as many places as fit. -/
def div? (a b : Decimal) : Option Decimal :=
  if b.isZero then none
  else if a.isZero then some zero
  else if a.coefficient % b.coefficient = 0 then
    ofParts? (a.coefficient / b.coefficient * tenTo (b.scale - a.scale)) (a.scale - b.scale)
  else
    let num : Int := a.size * tenTo b.scale
    let num := if a.negative = b.negative then num else -num
    ((writtenOut? a b).or (nearest? num (b.size * tenTo a.scale) maxScale)).map shorten

end Bureau.Decimal
