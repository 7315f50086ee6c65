import Bureau.Text.Digits

/-!
Hexadecimal digits, written in lower case and read in either.
-/

set_option autoImplicit false

namespace Bureau.Text

def hexChar (d : Nat) : Char := if d < 10 then digitChar d else Char.ofNat (87 + d)

def hexDigits (n : Nat) : List Char :=
  if n < 16 then [hexChar n] else hexDigits (n / 16) ++ [hexChar (n % 16)]
termination_by n
decreasing_by omega

def hexFixed : (count : Nat) → Nat → List Char
  | 0, _ => []
  | count + 1, n => hexFixed count (n / 16) ++ [hexChar (n % 16)]

def hexValue? (c : Char) : Option Nat :=
  if isDigit c then some (digitValue c)
  else if 'a' ≤ c ∧ c ≤ 'f' then some (c.toNat - 87)
  else if 'A' ≤ c ∧ c ≤ 'F' then some (c.toNat - 55)
  else none

def readHex? (n : Nat) : List Char → Option Nat
  | [] => some n
  | c :: cs => (hexValue? c).bind fun d => readHex? (16 * n + d) cs

end Bureau.Text
