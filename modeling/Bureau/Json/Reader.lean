import Bureau.Json.Basic
import Bureau.Text.Hex

/-!
Reading JSON. The grammar is the strict one: no commas at the end, no leading zeros, no raw control
characters in strings, and nothing but white space after the value.
-/

set_option autoImplicit false

namespace Bureau.Json

open Bureau.Text

def isSpace (c : Char) : Bool := c == ' ' || c == '\n' || c == '\t' || c == '\r'

def skipSpace (cs : List Char) : List Char := cs.dropWhile isSpace

/-! ### Strings -/

/-- One element of a string: a character or a surrogate. -/
inductive Unit16 where
  | char (c : Char)
  | high (n : Nat)
  | low (n : Nat)

def Unit16.ofNat (n : Nat) : Unit16 :=
  if 0xD800 ≤ n ∧ n < 0xDC00 then .high n
  else if 0xDC00 ≤ n ∧ n < 0xE000 then .low n
  else .char (Char.ofNat n)

def escape? (c : Char) : Option Char :=
  match c with
  | '"' => some '"'
  | '\\' => some '\\'
  | '/' => some '/'
  | 'b' => some '\x08'
  | 'f' => some '\x0c'
  | 'n' => some '\n'
  | 'r' => some '\r'
  | 't' => some '\t'
  | _ => none

/-- The elements of a string up to its closing quote, and what follows. -/
def readUnits? : List Char → Option (List Unit16 × List Char)
  | '"' :: rest => some ([], rest)
  | '\\' :: 'u' :: a :: b :: c :: d :: rest => do
      let n ← readHex? 0 [a, b, c, d]
      let (us, rest) ← readUnits? rest
      return (Unit16.ofNat n :: us, rest)
  | '\\' :: e :: rest => do
      let c ← escape? e
      let (us, rest) ← readUnits? rest
      return (.char c :: us, rest)
  | c :: rest =>
      if c.toNat < 32 then none
      else do
        let (us, rest) ← readUnits? rest
        return (.char c :: us, rest)
  | [] => none

/-- The characters of the elements, where every surrogate has its partner. -/
def join? : List Unit16 → Option (List Char)
  | [] => some []
  | .char c :: us => (join? us).map (c :: ·)
  | .high h :: .low l :: us =>
      (join? us).map (Char.ofNat (0x10000 + (h - 0xD800) * 1024 + (l - 0xDC00)) :: ·)
  | _ => none

def readString? (cs : List Char) : Option (Option String × List Char) :=
  (readUnits? cs).map fun (us, rest) => ((join? us).map String.ofList, rest)

/-! ### Numbers -/

def takeDigits (cs : List Char) : List Char × List Char :=
  (cs.takeWhile isDigit, cs.dropWhile isDigit)

/-- A whole part: zero alone or digits that do not begin with zero. -/
def readWhole? (cs : List Char) : Option (Nat × List Char) :=
  match takeDigits cs with
  | ([], _) => none
  | ('0' :: _ :: _, _) => none
  | (ds, rest) => some (valueOf ds, rest)

def readPlaces? : List Char → Option (List Nat × List Char)
  | '.' :: cs =>
      match takeDigits cs with
      | ([], _) => none
      | (ds, rest) => some (ds.map digitValue, rest)
  | cs => some ([], cs)

def readPower? : List Char → Option (Int × List Char)
  | '-' :: cs =>
      match takeDigits cs with
      | ([], _) => none
      | (ds, rest) => some (-(valueOf ds : Int), rest)
  | cs =>
      match takeDigits (match cs with | '+' :: rest => rest | _ => cs) with
      | ([], _) => none
      | (ds, rest) => some (valueOf ds, rest)

def readExponent? (cs : List Char) : Option (Option Int × List Char) :=
  match cs with
  | 'e' :: rest | 'E' :: rest => (readPower? rest).map fun (e, rest) => (some e, rest)
  | _ => some (none, cs)

def readNumeral? (negative : Bool) (cs : List Char) : Option (Json × List Char) := do
  let (whole, cs) ← readWhole? cs
  let (places, cs) ← readPlaces? cs
  let (exponent, cs) ← readExponent? cs
  return (.number ⟨negative, whole, places, exponent⟩, cs)

/-! ### Values -/

mutual

/-- A value after white space, and what follows. The fuel bounds the recursion; twice the count of
characters and two more is enough. -/
def readValue? : (fuel : Nat) → List Char → Option (Json × List Char)
  | 0, _ => none
  | fuel + 1, cs =>
      match skipSpace cs with
      | 'n' :: 'u' :: 'l' :: 'l' :: rest => some (.null, rest)
      | 't' :: 'r' :: 'u' :: 'e' :: rest => some (.bool true, rest)
      | 'f' :: 'a' :: 'l' :: 's' :: 'e' :: rest => some (.bool false, rest)
      | '"' :: rest => (readString? rest).map fun (s, rest) => (.text s, rest)
      | '[' :: rest =>
          match skipSpace rest with
          | ']' :: rest => some (.array [], rest)
          | rest => (readItems? fuel rest).map fun (items, rest) => (.array items, rest)
      | '\x7b' :: rest =>
          match skipSpace rest with
          | '\x7d' :: rest => some (.object [], rest)
          | rest => (readMembers? fuel rest).map fun (members, rest) => (.object members, rest)
      | '-' :: rest => readNumeral? true rest
      | rest => readNumeral? false rest

def readItems? : (fuel : Nat) → List Char → Option (List Json × List Char)
  | 0, _ => none
  | fuel + 1, cs => do
      let (item, cs) ← readValue? fuel cs
      match skipSpace cs with
      | ']' :: rest => return ([item], rest)
      | ',' :: rest =>
          let (items, rest) ← readItems? fuel rest
          return (item :: items, rest)
      | _ => none

def readMembers? : (fuel : Nat) → List Char → Option (List (Option String × Json) × List Char)
  | 0, _ => none
  | fuel + 1, cs => do
      let cs ← match skipSpace cs with
        | '"' :: rest => some rest
        | _ => none
      let (name, cs) ← readString? cs
      let cs ← match skipSpace cs with
        | ':' :: rest => some rest
        | _ => none
      let (value, cs) ← readValue? fuel cs
      match skipSpace cs with
      | '\x7d' :: rest => return ([(name, value)], rest)
      | ',' :: rest =>
          let (members, rest) ← readMembers? fuel rest
          return ((name, value) :: members, rest)
      | _ => none

end

def ofChars? (cs : List Char) : Option Json := do
  let (value, rest) ← readValue? (2 * cs.length + 2) cs
  if skipSpace rest = [] then some value else none

def parse? (s : String) : Option Json := ofChars? s.toList

end Bureau.Json
