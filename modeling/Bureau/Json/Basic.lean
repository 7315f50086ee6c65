import Bureau.Binary64.Basic

/-!
JSON values as they stand in a text. A number keeps its digits and a string whose escapes spell no
text is kept apart, so that parts of a document which nobody reads need not make sense.
-/

set_option autoImplicit false

namespace Bureau

/-- A number as written: whole part, places, and exponent if there is one. -/
structure Numeral where
  negative : Bool := false
  whole : Nat
  places : List Nat := []
  exponent : Option Int := none
deriving DecidableEq

/-- A JSON value. Strings and names are `none` when a surrogate stands alone in them. -/
inductive Json where
  | null
  | bool (b : Bool)
  | number (n : Numeral)
  | text (t : Option String)
  | array (items : List Json)
  | object (members : List (Option String × Json))

namespace Json

instance : Inhabited Json := ⟨.null⟩

def str (s : String) : Json := .text (some s)

def int (i : Int) : Json := .number { negative := i < 0, whole := i.natAbs }

def record (members : List (String × Json)) : Json :=
  .object (members.map fun (name, value) => (some name, value))

def field? (name : String) : Json → Option Json
  | .object members =>
      match members.find? (fun m => m.1 == some name) with
      | some (_, .null) => none
      | some (_, value) => some value
      | none => none
  | _ => none

mutual

def mapText (f : String → String) : Json → Json
  | .text t => .text (t.map f)
  | .array items => .array (mapItems f items)
  | .object members => .object (mapMembers f members)
  | other => other

def mapItems (f : String → String) : List Json → List Json
  | [] => []
  | item :: rest => mapText f item :: mapItems f rest

/-- The members of an object with the strings in their values changed. -/
def mapMembers (f : String → String) : List (Option String × Json) → List (Option String × Json)
  | [] => []
  | (name, value) :: rest => (name, mapText f value) :: mapMembers f rest

end

end Json

/-! ### The value of a number -/

/-- The value of a number: a whole number of 64 bits, or a floating-point number. -/
inductive Number where
  | whole (i : Int)
  | floating (x : Binary64)

namespace Numeral

/-- Appends digits to a significand while 64 bits hold it; also the count of digits that were
appended. -/
def appendDigits (significand : Nat) : List Nat → Nat × Nat
  | [] => (significand, 0)
  | d :: ds =>
      if 10 * significand + d < twoTo 64 then
        let (s, n) := appendDigits (10 * significand + d) ds
        (s, n + 1)
      else
        (significand, 0)

def digitList (n : Nat) : List Nat :=
  if n < 10 then [n] else digitList (n / 10) ++ [n % 10]
termination_by n
decreasing_by omega

def power (k : Nat) : Option Binary64 := Binary64.nearest? false (tenTo k) 1

/-- Scales a floating-point number by a power of ten, in steps of at most `10 ^ 308`. The steps are
bounded because two divisions by `10 ^ 308` make any 64-bit significand zero. -/
def scaleBy (x : Binary64) (exponent : Int) : (steps : Nat) → Option Binary64
  | 0 => some x
  | steps + 1 =>
      if exponent.natAbs ≤ 308 then do
        let p ← power exponent.natAbs
        if 0 ≤ exponent then x.mul? p else x.div? p
      else if x.significand = 0 then some x
      else if 0 ≤ exponent then none
      else do
        let x ← x.div? (← power 308)
        scaleBy x (exponent + 308) steps

/-- The floating-point number of a numeral: up to 64 bits of its digits, then scaled. Exponents are
kept to 31 bits. -/
def floating? (n : Numeral) : Option Binary64 :=
  let whole := digitList n.whole
  let (significand, taken) := appendDigits 0 whole
  let (significand, takenPlaces) := appendDigits significand n.places
  let shift : Int := (whole.length - taken : Nat) - (takenPlaces : Int)
  let exponent := n.exponent.getD 0
  if twoTo 31 ≤ exponent.natAbs then
    if significand ≠ 0 ∧ 0 < exponent then none else some ⟨n.negative, 0, -1074⟩
  else
    let scale := Max.max (-twoTo 31 : Int) (Min.min (twoTo 31 - 1 : Int) (shift + exponent))
    (Binary64.nearest? n.negative significand 1).bind (scaleBy · scale 4)

/-- The value of a numeral; `none` when it is too large. A number without places and exponent is
whole if 64 bits hold it, except for a negative zero. -/
def value? (n : Numeral) : Option Number :=
  let isWhole := n.places.isEmpty && n.exponent.isNone &&
    if n.negative then 0 < n.whole && n.whole ≤ twoTo 63 else n.whole < twoTo 64
  if isWhole then some (.whole (if n.negative then -(n.whole : Int) else n.whole))
  else n.floating?.map .floating

end Numeral

end Bureau
