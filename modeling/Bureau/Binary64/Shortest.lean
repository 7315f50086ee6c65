import Bureau.Binary64.Basic
import Bureau.Decimal.Text

/-!
The shortest decimal that reads back as a given binary number, and that decimal in positional
notation.
-/

set_option autoImplicit false

namespace Bureau.Binary64

open Bureau.Text

/-- Whether `digits * 10 ^ power` lies among the reals that round to `x`; the ends count when the
significand is even. Everything is compared as multiples of a quarter of the last binary place. -/
def roundsTo (x : Binary64) (digits : Nat) (power : Int) : Bool :=
  let up := twoTo (x.exponent - 2).toNat * tenTo (-power).toNat
  let value := digits * tenTo power.toNat * twoTo (2 - x.exponent).toNat
  let below := if x.significand = twoTo 52 ∧ -1074 < x.exponent then 1 else 2
  let low := (4 * x.significand - below) * up
  let high := (4 * x.significand + 2) * up
  if x.significand % 2 = 0 then low ≤ value && value ≤ high else low < value && value < high

/-- The neighbour of `x` on the grid of multiples of `10 ^ power` that reads back as `x`: the nearer
of two, the upper one at equal distance. -/
def onGrid? (x : Binary64) (power : Int) : Option Nat :=
  let num := x.numerator * tenTo (-power).toNat
  let den := x.denominator * tenTo power.toNat
  let below := num / den
  match x.roundsTo below power, x.roundsTo (below + 1) power with
  | true, true => some (if 2 * (num % den) < den then below else below + 1)
  | true, false => some below
  | false, true => some (below + 1)
  | false, false => none

/-- The first grid, from coarse to fine, with a neighbour that reads back. -/
def firstGrid (x : Binary64) : (count : Nat) → (power : Int) → Nat × Int
  | 0, power => (x.numerator * tenTo (-power).toNat / x.denominator, power)
  | count + 1, power =>
      match x.onGrid? power with
      | some digits => (digits, power)
      | none => firstGrid x count (power - 1)

/-- The digits of the shortest decimal and the power of ten they count. -/
def shortest (x : Binary64) : Nat × Int :=
  if x.significand = 0 then (0, 0)
  else
    let length : Int := (digits (x.numerator / x.denominator)).length
    let first : Int :=
      if x.denominator ≤ x.numerator then length
      else length - (digits (x.denominator / x.numerator)).length
    x.firstGrid 19 first

/-- The shortest decimal in positional notation, without an exponent. -/
def positional (x : Binary64) : List Char :=
  let (ds, power) := x.shortest
  let body :=
    if 0 ≤ power then digits (ds * tenTo power.toNat)
    else Decimal.pointed ds (-power).toNat
  if x.negative then '-' :: body else body

def toDecimal? (x : Binary64) : Option Decimal := Decimal.ofPlain? x.positional

/-! ### Fractions with about sixteen digits -/

/-- Turns `m / 2 ^ steps` into a coefficient and a count of places. Each step halves an even
coefficient or multiplies an odd one by five, and halves it too when five times as much has no room
in 96 bits. -/
def dropTwos : (steps : Nat) → (coefficient places : Nat) → Nat × Nat
  | 0, c, places => (c, places)
  | steps + 1, c, places =>
      if c % 2 = 1 ∧ 5 * c < twoTo 96 then dropTwos steps (5 * c) places
      else dropTwos steps (c / 2) (places - 1)

/-- Takes off places, rounding half up each time, until the coefficient is below 2⁵² and at most 28
places are left. -/
def dropPlaces : (places : Nat) → (coefficient : Nat) → Nat × Nat
  | 0, c => (c, 0)
  | places + 1, c =>
      if 28 < places + 1 ∨ twoTo 52 ≤ c then
        let c' := if 5 ≤ c % 10 then c / 10 + 1 else c / 10
        if c / 10 = 0 ∧ 28 < places + 1 then (0, 0) else dropPlaces places c'
      else (c, places + 1)

/-- A fraction as a decimal of fifteen or sixteen digits without trailing zeros. -/
def fraction? (x : Binary64) : Option Decimal :=
  let (c, places) := dropTwos (-x.exponent).toNat x.numerator (-x.exponent).toNat
  let (c, places) := dropPlaces places c
  (Decimal.ofParts? (if x.negative then -(c : Int) else c) places).map Decimal.normalize

end Bureau.Binary64
