import ContractFuzz.Time.Instant
/-!
# Calendar text

Instants as dates of the proleptic Gregorian calendar in universal time.

## Main definitions

* `Date`, `Date.ofEpochDay`: the date of a day counted from the start of 1970.
* `Instant.calendarText`: date, time of day and zone, with no fraction of a second, or with the
  fewest digits of it among three, six and nine.
-/

namespace ContractFuzz

/-- A day of the proleptic Gregorian calendar. -/
structure Date where
  /-- The year; the one before 1 is 0. -/
  year : Int
  /-- The month, from 1 to 12. -/
  month : Nat
  /-- The day of the month, from 1. -/
  day : Nat
deriving DecidableEq, Repr

namespace Date

/-- The date of the day that lies `n` days after 1 January 1970. Years are counted from March, so
that the leap day is the last of its year, in cycles of 400 years. -/
def ofEpochDay (n : Int) : Date :=
  let shifted := n + 719468
  let cycle := shifted.fdiv 146097
  let dayOfCycle := (shifted.fmod 146097).toNat
  let yearOfCycle :=
    (dayOfCycle - dayOfCycle / 1460 + dayOfCycle / 36524 - dayOfCycle / 146096) / 365
  let dayOfYear := dayOfCycle - (365 * yearOfCycle + yearOfCycle / 4 - yearOfCycle / 100)
  let monthFromMarch := (5 * dayOfYear + 2) / 153
  let day := dayOfYear - (153 * monthFromMarch + 2) / 5 + 1
  let month := if monthFromMarch < 10 then monthFromMarch + 3 else monthFromMarch - 9
  let year := cycle * 400 + yearOfCycle + (if month ≤ 2 then 1 else 0)
  ⟨year, month, day⟩

end Date

/-- The decimal digits of `n`, filled up with zeros on the left to `width` characters. -/
def padded (width n : Nat) : String :=
  let digits := Nat.toDigits 10 n
  String.ofList (List.replicate (width - digits.length) '0' ++ digits)

/-- A year with at least four digits; outside 0 to 9999 it has a sign. -/
def yearText (year : Int) : String :=
  if 0 ≤ year ∧ year ≤ 9999 then padded 4 year.natAbs
  else (if year < 0 then "-" else "+") ++ padded 4 year.natAbs

/-- A fraction of a second, with the fewest digits of it among none, three, six and nine. -/
def fractionText (nanos : Nat) : String :=
  if nanos = 0 then ""
  else if nanos % 1000000 = 0 then "." ++ padded 3 (nanos / 1000000)
  else if nanos % 1000 = 0 then "." ++ padded 6 (nanos / 1000)
  else "." ++ padded 9 nanos

/-- An instant as a date and time of day in universal time. -/
def Instant.calendarText (t : Instant) : String :=
  let date := Date.ofEpochDay (t.seconds.fdiv 86400)
  let second := (t.seconds.fmod 86400).toNat
  yearText date.year ++ "-" ++ padded 2 date.month ++ "-" ++ padded 2 date.day ++ "T" ++
    padded 2 (second / 3600) ++ ":" ++ padded 2 (second / 60 % 60) ++ ":" ++
    padded 2 (second % 60) ++ fractionText t.subsecond ++ "Z"

end ContractFuzz
