import Bureau.Power

/-!
Decimal numbers with a 96-bit size and at most 28 places: the type, its order and the rounding of
quotients. A number keeps its scale, so `1.50` and `1.5` are different as data and equal as values.
A zero can carry a sign, which its text shows and its value does not.
-/

set_option autoImplicit false

namespace Bureau

/-- A decimal number, `± size / 10 ^ scale`. -/
structure Decimal where
  /-- Whether a minus sign stands in front. -/
  negative : Bool
  /-- The digits, without the point. -/
  size : Nat
  /-- How many of the digits stand after the point. -/
  scale : Nat
  size_lt : size < twoTo 96 := by decide
  scale_le : scale ≤ 28 := by decide
deriving DecidableEq

namespace Decimal

def maxScale : Nat := 28

def coefficient (a : Decimal) : Int := if a.negative then -(a.size : Int) else a.size

/-- The number with the given digits and scale, where it can be represented. Its zero has no sign. -/
def ofParts? (coefficient : Int) (scale : Nat) : Option Decimal :=
  if h : coefficient.natAbs < twoTo 96 ∧ scale ≤ 28 then
    some ⟨decide (coefficient < 0), coefficient.natAbs, scale, h.1, h.2⟩
  else
    none

/-! ### Constants -/

def zero : Decimal := ⟨false, 0, 0, by decide, by decide⟩

def fiveBasisPoints : Decimal := ⟨false, 5, 4, by decide, by decide⟩

def twoPercent : Decimal := ⟨false, 2, 2, by decide, by decide⟩

def threeTenths : Decimal := ⟨false, 3, 1, by decide, by decide⟩

def half : Decimal := ⟨false, 5, 1, by decide, by decide⟩

def one : Decimal := ⟨false, 1, 0, by decide, by decide⟩
def hundred : Decimal := ⟨false, 100, 0, by decide, by decide⟩
def twoHundred : Decimal := ⟨false, 200, 0, by decide, by decide⟩
def tenThousand : Decimal := ⟨false, 10000, 0, by decide, by decide⟩

instance : Inhabited Decimal := ⟨zero⟩

def isZero (a : Decimal) : Bool := a.size == 0

def withSign (a : Decimal) (negative : Bool) : Decimal := { a with negative }

def neg (a : Decimal) : Decimal := a.withSign !a.negative

def abs (a : Decimal) : Decimal := a.withSign false

/-! ### Order by value -/

/-- The coefficient of the first number at the two scales together. -/
def scaledBy (a b : Decimal) : Int := a.coefficient * tenTo b.scale

instance : LT Decimal := ⟨fun a b => a.scaledBy b < b.scaledBy a⟩
instance : LE Decimal := ⟨fun a b => a.scaledBy b ≤ b.scaledBy a⟩
instance (a b : Decimal) : Decidable (a < b) := inferInstanceAs (Decidable (_ < (_ : Int)))
instance (a b : Decimal) : Decidable (a ≤ b) := inferInstanceAs (Decidable (_ ≤ (_ : Int)))

/-- Whether two numbers have the same value; their scales may differ. -/
def sameValue (a b : Decimal) : Bool := a.scaledBy b == b.scaledBy a

def max (a b : Decimal) : Decimal := if a < b then b else a

def clamp (a low high : Decimal) : Decimal :=
  if a < low then low else if high < a then high else a

/-! ### Rounding -/

/-- The quotient rounded to the nearest integer, a half going to the even neighbour. -/
def halfEven (n d : Nat) : Nat :=
  if d < 2 * (n % d) ∨ (2 * (n % d) = d ∧ n / d % 2 = 1) then n / d + 1 else n / d

/-- The quotient of a signed number, rounded like that of its size. -/
def halfEvenInt (n : Int) (d : Nat) : Int :=
  if n < 0 then -(halfEven n.natAbs d : Int) else halfEven n.natAbs d

theorem halfEven_le (n d : Nat) (h : 0 < d) : halfEven n d ≤ n := by
  unfold halfEven
  have hdiv := Nat.div_add_mod n d
  have hle := Nat.div_le_self n d
  split
  · rename_i hr
    rcases Nat.lt_or_ge 1 d with h1 | h1
    · have hm : 1 ≤ n % d := by omega
      have : n / d * 1 ≤ d * (n / d) := by
        rw [Nat.mul_comm d]; exact Nat.mul_le_mul_left _ h
      omega
    · have : d = 1 := by omega
      subst this
      simp [Nat.mod_one] at hr
  · exact hle

/-- The number rounded half to even to a number of places; one with fewer places is left alone. A
number that rounds to zero loses its sign, and a zero keeps it. -/
def roundTo (a : Decimal) (places : Nat) : Decimal :=
  if h : places < a.scale then
    let size := halfEven a.size (tenTo (a.scale - places))
    ⟨a.negative && (a.isZero || size != 0), size, places,
      Nat.lt_of_le_of_lt (halfEven_le _ _ (tenTo_pos _)) a.size_lt,
      Nat.le_trans (Nat.le_of_lt h) a.scale_le⟩
  else
    a

/-- The number nearest to a quotient with as many places as fit, at most the given number. -/
def nearest? (num : Int) (den : Nat) : (places : Nat) → Option Decimal
  | 0 => ofParts? (halfEvenInt num den) 0
  | places + 1 =>
      match ofParts? (halfEvenInt (num * tenTo (places + 1)) den) (places + 1) with
      | some a => some a
      | none => nearest? num den places

/-! ### Trailing zeros -/

/-- The digits and scale without as many trailing zeros after the point as given, or all if there are
fewer. -/
def stripZeros (size scale : Nat) : (zeros : Nat) → Nat × Nat
  | 0 => (size, scale)
  | zeros + 1 =>
      if 0 < scale ∧ size % 10 = 0 then stripZeros (size / 10) (scale - 1) zeros
      else (size, scale)

theorem stripZeros_bound (n s zeros : Nat) :
    (stripZeros n s zeros).1 ≤ n ∧ (stripZeros n s zeros).2 ≤ s := by
  induction zeros generalizing n s with
  | zero => simp [stripZeros]
  | succ k ih =>
    unfold stripZeros
    split
    · have := ih (n / 10) (s - 1)
      constructor <;> omega
    · simp

/-- The number without as many trailing zeros after the point as given, or all if there are fewer. -/
def dropZeros (a : Decimal) (zeros : Nat) : Decimal :=
  ⟨a.negative, (stripZeros a.size a.scale zeros).1, (stripZeros a.size a.scale zeros).2,
    Nat.lt_of_le_of_lt (stripZeros_bound _ _ _).1 a.size_lt,
    Nat.le_trans (stripZeros_bound _ _ _).2 a.scale_le⟩

/-- The number without trailing zeros after the point, and a zero without its sign. -/
def normalize (a : Decimal) : Decimal := if a.isZero then zero else a.dropZeros a.scale

/-- The number without up to so many groups of eight trailing zeros; a group is dropped only while the
digits are a multiple of 2³² as well. -/
def dropGroups (a : Decimal) : (groups : Nat) → Decimal
  | 0 => a
  | groups + 1 =>
      if 8 ≤ a.scale ∧ a.size % (twoTo 32 * 390625) = 0 then
        (a.dropZeros 8).dropGroups groups
      else
        a

/-- The number without groups of eight trailing zeros where these can be dropped, and then without up
to seven more. -/
def shorten (a : Decimal) : Decimal := (a.dropGroups 3).dropZeros 7

end Decimal

end Bureau
