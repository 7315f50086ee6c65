import Bureau.Power

/-!
Decimal digits of natural numbers as characters, most significant first, and the reverse reading.
`valueOf` reads what `digits` writes.
-/

set_option autoImplicit false

namespace Bureau.Text

def digitChar (d : Nat) : Char := Char.ofNat (48 + d)

def digitValue (c : Char) : Nat := c.toNat - 48

def isDigit (c : Char) : Bool := 48 ≤ c.toNat && c.toNat ≤ 57

/-- The digits of a number without leading zeros; zero is one digit. -/
def digits (n : Nat) : List Char :=
  if n < 10 then [digitChar n] else digits (n / 10) ++ [digitChar (n % 10)]
termination_by n
decreasing_by omega

def padLeft (width : Nat) (cs : List Char) : List Char :=
  List.replicate (width - cs.length) '0' ++ cs

/-- The digits of a number, filled up with zeros in front to a width. -/
def paddedDigits (width n : Nat) : List Char := padLeft width (digits n)

def valueOf (cs : List Char) : Nat := cs.foldl (fun n c => 10 * n + digitValue c) 0

def intChars (i : Int) : List Char :=
  if i < 0 then '-' :: digits i.natAbs else digits i.natAbs

def natText (n : Nat) : String := String.ofList (digits n)

def intText (i : Int) : String := String.ofList (intChars i)

/-- Reads an unsigned number: an optional plus sign and one or more digits, below a bound. -/
def readNat? (bound : Nat) (cs : List Char) : Option Nat :=
  let ds := match cs with
    | '+' :: rest => rest
    | _ => cs
  if ds ≠ [] && ds.all isDigit && valueOf ds < bound then some (valueOf ds) else none

/-- Reads a signed number: an optional sign and one or more digits, of at most 63 bits. -/
def readInt64? (cs : List Char) : Option Int :=
  match cs with
  | '-' :: ds =>
      if ds ≠ [] && ds.all isDigit && valueOf ds ≤ twoTo 63 then some (-(valueOf ds : Int)) else none
  | _ => (readNat? (twoTo 63) cs).map Int.ofNat

end Bureau.Text
