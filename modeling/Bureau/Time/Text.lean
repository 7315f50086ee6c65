import Bureau.Text.Digits
import Bureau.Text.Blank
import Bureau.Time.Calendar
import Bureau.Time.Timestamp

/-!
Timestamps as text after RFC 3339. Writing gives UTC with a `Z`, the fewest of 0, 3, 6 or 9 places
of the second, and a signed year outside 0000 to 9999. Reading takes any offset from UTC, white
space between the parts, and fewer digits.
-/

set_option autoImplicit false

namespace Bureau.Timestamp

open Bureau.Text

/-! ### Writing -/

/-- A year: four digits, or a sign and at least four digits outside 0 to 9999. -/
def yearChars (year : Int) : List Char :=
  if 0 ≤ year ∧ year ≤ 9999 then paddedDigits 4 year.toNat
  else (if year < 0 then '-' else '+') :: paddedDigits 4 year.natAbs

/-- The places of a second, in groups of three and none for a whole second. -/
def fractionChars (nanos : Nat) : List Char :=
  if nanos = 0 then []
  else if nanos % 1000000 = 0 then '.' :: paddedDigits 3 (nanos / 1000000)
  else if nanos % 1000 = 0 then '.' :: paddedDigits 6 (nanos / 1000)
  else '.' :: paddedDigits 9 nanos

/-- The characters of a timestamp; a leap second is written as second 60. -/
def chars (t : Timestamp) : List Char :=
  let date := Date.ofDayNumber (t.second / 86400)
  let inDay := (t.second % 86400).toNat
  let second := inDay % 60 + if t.leap then 1 else 0
  yearChars date.year ++ '-' :: paddedDigits 2 date.month ++ '-' :: paddedDigits 2 date.day ++
    'T' :: paddedDigits 2 (inDay / 3600) ++ ':' :: paddedDigits 2 (inDay / 60 % 60) ++
    ':' :: paddedDigits 2 second ++ fractionChars (t.nanos % 1000000000).toNat ++ ['Z']

def text (t : Timestamp) : String := String.ofList t.chars

instance : ToString Timestamp := ⟨text⟩

/-! ### Reading -/

def takeNumber? (most : Nat) (cs : List Char) : Option (Nat × List Char) :=
  let ds := (cs.take most).takeWhile isDigit
  if ds = [] then none else some (valueOf ds, cs.drop ds.length)

/-- A year: up to four digits, or a sign and any number of digits. -/
def takeYear? (cs : List Char) : Option (Int × List Char) :=
  match trimStart cs with
  | '-' :: rest => (takeNumber? rest.length rest).map fun (n, rest) => (-(n : Int), rest)
  | '+' :: rest => (takeNumber? rest.length rest).map fun (n, rest) => ((n : Int), rest)
  | rest => (takeNumber? 4 rest).map fun (n, rest) => ((n : Int), rest)

def takeField? (cs : List Char) : Option (Nat × List Char) := takeNumber? 2 (trimStart cs)

def takeMark? (mark : Char) (cs : List Char) : Option (List Char) :=
  match trimStart cs with
  | c :: rest => if c = mark then some rest else none
  | [] => none

/-- The places of a second after a point, as nanoseconds; places after the ninth are left out. -/
def takeFraction? : List Char → Option (Nat × List Char)
  | '.' :: cs => do
      let (n, rest) ← takeNumber? 9 cs
      let count := ((cs.take 9).takeWhile isDigit).length
      return (n * tenTo (9 - count), rest.dropWhile isDigit)
  | cs => some (0, cs)

/-- Minutes of an offset from UTC after its sign: two digits of hours, two of minutes below 60,
with colons or white space between them, and less than a day in all. -/
def takeOffset? : List Char → Option (Nat × List Char)
  | h :: h' :: cs =>
      match cs.dropWhile (fun c => c == ':' || isBlank c) with
      | m :: m' :: rest =>
          if isDigit h && isDigit h' && isDigit m && isDigit m' && digitValue m ≤ 5 then
            let minutes := valueOf [h, h'] * 60 + valueOf [m, m']
            if minutes < 1440 then some (minutes, rest) else none
          else none
      | _ => none
  | _ => none

/-- A zone as minutes east of UTC: `Z`, `UTC`, or a signed offset. -/
def takeZone? (cs : List Char) : Option (Int × List Char) :=
  match cs with
  | 'Z' :: rest => some (0, rest)
  | 'z' :: rest => some (0, rest)
  | '+' :: rest => (takeOffset? rest).map fun (n, rest) => ((n : Int), rest)
  | '-' :: rest => (takeOffset? rest).map fun (n, rest) => (-(n : Int), rest)
  | '−' :: rest => (takeOffset? rest).map fun (n, rest) => (-(n : Int), rest)
  | u :: t :: c :: rest =>
      if [u.toUpper, t.toUpper, c.toUpper] = ['U', 'T', 'C'] then some (0, rest) else none
  | _ => none

def ofChars? (cs : List Char) : Option Timestamp := do
  let (year, cs) ← takeYear? cs
  let (month, cs) ← takeField? (← takeMark? '-' cs)
  let (day, cs) ← takeField? (← takeMark? '-' cs)
  let cs ← match cs with
    | 'T' :: rest | 't' :: rest | ' ' :: rest => some rest
    | _ => none
  let (hour, cs) ← takeField? cs
  let (minute, cs) ← takeField? (← takeMark? ':' cs)
  let (second, cs) ← takeField? (← takeMark? ':' cs)
  let (nanos, cs) ← takeFraction? cs
  let (zone, cs) ← takeZone? (trimStart cs)
  let date : Date := ⟨year, month, day⟩
  if trimStart cs ≠ [] || !date.isValid || 23 < hour || 59 < minute || 60 < second then none
  else
    let leap := second == 60
    let clock := hour * 3600 + minute * 60 + if leap then 59 else second
    let localSecond : Int := date.dayNumber * 86400 + clock
    if localSecond * 1000000000 < calendarStart ∨ calendarEnd < localSecond * 1000000000 then none
    else make? ((localSecond - zone * 60) * 1000000000 + nanos) leap

def parse? (s : String) : Option Timestamp := ofChars? s.toList

end Bureau.Timestamp
