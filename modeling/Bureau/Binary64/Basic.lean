import Bureau.Decimal.Basic

/-!
Binary floating-point numbers of 64 bits, finite ones only, as exact values. Every operation is the
exact result rounded to the nearest such number, a half going to the even significand; `none` means
that it is too large.
-/

set_option autoImplicit false

namespace Bureau

/-- A finite number of the format, `significand * 2 ^ exponent` with a sign. -/
structure Binary64 where
  negative : Bool
  /-- Below 2⁵³; at least 2⁵² unless the exponent is the least one. -/
  significand : Nat
  /-- Between −1074 and 971. -/
  exponent : Int
deriving DecidableEq

namespace Binary64

def zero : Binary64 := ⟨false, 0, -1074⟩

def numerator (x : Binary64) : Nat := x.significand * twoTo x.exponent.toNat
def denominator (x : Binary64) : Nat := twoTo (-x.exponent).toNat

/-- The whole number of twos in a positive quotient: the `e` with `2 ^ e ≤ num / den < 2 ^ (e + 1)`. -/
def magnitude (num den : Nat) : Int :=
  let e : Int := (num.log2 : Int) - den.log2
  if num * twoTo (-e).toNat < den * twoTo e.toNat then e - 1 else e

def nearest? (negative : Bool) (num den : Nat) : Option Binary64 :=
  if num = 0 then some ⟨negative, 0, -1074⟩
  else
    let e : Int := Max.max (magnitude num den - 52) (-1074)
    let m := Decimal.halfEven (num * twoTo (-e).toNat) (den * twoTo e.toNat)
    let (m, e) := if m = twoTo 53 then (twoTo 52, e + 1) else (m, e)
    if 971 < e then none else some ⟨negative, m, e⟩

def mul? (x y : Binary64) : Option Binary64 :=
  nearest? (x.negative != y.negative) (x.numerator * y.numerator) (x.denominator * y.denominator)

def div? (x y : Binary64) : Option Binary64 :=
  nearest? (x.negative != y.negative) (x.numerator * y.denominator) (x.denominator * y.numerator)

def predecessor? (x : Binary64) : Option Binary64 :=
  let value : Int := if x.negative then -(x.numerator : Int) else x.numerator
  let less := value - x.denominator
  nearest? (less < 0) less.natAbs x.denominator

end Binary64

end Bureau
