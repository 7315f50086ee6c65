import Bureau.Power
import Bureau.Text.Hex

/-!
Identifiers. A lock id is any text; fresh ones are UUIDs of version 4. A quote id is a UUID, read in
four layouts and written in one.
-/

set_option autoImplicit false

namespace Bureau

open Text

/-- A number of 128 bits with the text layout of UUIDs. -/
structure Uuid where
  number : Nat
  number_lt : number < twoTo 128
deriving DecidableEq

namespace Uuid

def ofDigits? (cs : List Char) : Option Uuid := do
  let n ← readHex? 0 cs
  if h : cs.length = 32 ∧ n < twoTo 128 then some ⟨n, h.2⟩ else none

/-- The UUID of digits with hyphens after the 8th, 12th, 16th and 20th. -/
def ofHyphenated? (cs : List Char) : Option Uuid :=
  if cs.length = 36 ∧ [8, 13, 18, 23].all (fun i => cs[i]? == some '-') then
    ofDigits? (cs.take 8 ++ (cs.drop 9).take 4 ++ (cs.drop 14).take 4 ++ (cs.drop 19).take 4 ++
      cs.drop 24)
  else
    none

/-- Reads a UUID: plain digits, hyphenated digits, these in braces, or these as a URN, whose scheme
is read in either case. -/
def ofChars? (cs : List Char) : Option Uuid :=
  if cs.length = 32 then ofDigits? cs
  else if cs.length = 36 then ofHyphenated? cs
  else if cs.length = 38 ∧ cs.head? = some '\x7b' ∧ cs.getLast? = some '\x7d' then
    ofHyphenated? (cs.drop 1).dropLast
  else if cs.length = 45 ∧ (cs.take 9).map Char.toLower = "urn:uuid:".toList then ofHyphenated? (cs.drop 9)
  else none

def parse? (s : String) : Option Uuid := ofChars? s.toList

/-- The characters of a UUID: lower-case digits in hyphenated groups. -/
def chars (u : Uuid) : List Char :=
  let ds := hexFixed 32 u.number
  ds.take 8 ++ '-' :: (ds.drop 8).take 4 ++ '-' :: (ds.drop 12).take 4 ++ '-' ::
    (ds.drop 16).take 4 ++ '-' :: ds.drop 20

def text (u : Uuid) : String := String.ofList u.chars

instance : ToString Uuid := ⟨text⟩

def version (u : Uuid) : Nat := u.number / twoTo 76 % 16

/-- The UUID of version 4 whose last digits count up from zero; it repeats after 2⁶⁰ numbers. -/
def numbered (n : Nat) : Uuid :=
  ⟨4 * twoTo 76 + 8 * twoTo 60 + n % twoTo 60, by
    have h : n % twoTo 60 < twoTo 60 := Nat.mod_lt n (twoTo_pos 60)
    exact Nat.lt_trans (Nat.add_lt_add_left h _) (by decide)⟩

end Uuid

/-- The token of a rate lock. Any text may be asked for. -/
structure LockId where
  text : String
deriving DecidableEq, Inhabited

instance : ToString LockId := ⟨LockId.text⟩

def LockId.ofUuid (u : Uuid) : LockId := ⟨u.text⟩

end Bureau
