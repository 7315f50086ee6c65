/-!
Dates of the Gregorian calendar, extended without end in both directions, and their numbering by
days from 1970-01-01.
-/

set_option autoImplicit false

namespace Bureau

/-- A date; the month counts from 1 and so does the day. -/
structure Date where
  year : Int
  month : Nat
  day : Nat
deriving DecidableEq

namespace Date

def isLeapYear (year : Int) : Bool :=
  year % 4 == 0 && (year % 100 != 0 || year % 400 == 0)

def daysInMonth (year : Int) (month : Nat) : Nat :=
  match month with
  | 2 => if isLeapYear year then 29 else 28
  | 4 | 6 | 9 | 11 => 30
  | _ => 31

def isValid (d : Date) : Bool :=
  1 ≤ d.month && d.month ≤ 12 && 1 ≤ d.day && d.day ≤ daysInMonth d.year d.month

/-- The days from 1970-01-01. Years are counted from March, so that a leap day comes last. -/
def dayNumber (d : Date) : Int :=
  let year := if d.month ≤ 2 then d.year - 1 else d.year
  let month : Int := (d.month + 9) % 12
  365 * year + year / 4 - year / 100 + year / 400 + (153 * month + 2) / 5 + d.day - 719469

def ofDayNumber (n : Int) : Date :=
  let shifted := n + 719468
  let era := shifted / 146097
  let day := shifted % 146097
  let year := (day - day / 1460 + day / 36524 - day / 146096) / 365
  let rest := day - (365 * year + year / 4 - year / 100)
  let month := (5 * rest + 2) / 153
  let inMonth := rest - (153 * month + 2) / 5 + 1
  if month < 10 then ⟨400 * era + year, (month + 3).toNat, inMonth.toNat⟩
  else ⟨400 * era + year + 1, (month - 9).toNat, inMonth.toNat⟩

end Date

end Bureau
