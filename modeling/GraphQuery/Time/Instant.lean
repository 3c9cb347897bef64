/-!
# Instants

Points in time in UTC, counted from the start of 1970, and their RFC 3339 text. A nanosecond count of a
second or more marks a leap second, which is written as the second after the counted one.
-/

namespace GraphQuery

/-- Seconds since the start of 1970 in UTC, and nanoseconds within the second. -/
structure Instant where
  seconds : Int
  nanos : Nat
  deriving DecidableEq

/-- A day of the Gregorian calendar, extended to all years. -/
structure CalendarDay where
  year : Int
  month : Nat
  day : Nat
  deriving DecidableEq

namespace CalendarDay

/-- The day that lies the given number of days after the first of January 1970. Days are counted in eras of
four hundred years that begin on the first of March, so that the leap day is the last of its year. -/
def ofEpochDays (days : Int) : CalendarDay :=
  let shifted := days + 719468
  let era := shifted.fdiv 146097
  let dayOfEra := (shifted.fmod 146097).toNat
  let yearOfEra := (dayOfEra - dayOfEra / 1460 + dayOfEra / 36524 - dayOfEra / 146096) / 365
  let dayOfYear := dayOfEra - (365 * yearOfEra + yearOfEra / 4 - yearOfEra / 100)
  let monthFromMarch := (5 * dayOfYear + 2) / 153
  let month := if monthFromMarch < 10 then monthFromMarch + 3 else monthFromMarch - 9
  { year := era * 400 + yearOfEra + (if month ≤ 2 then 1 else 0)
    month := month
    day := dayOfYear - (153 * monthFromMarch + 2) / 5 + 1 }

end CalendarDay

namespace Instant

/-- The numeral of `n` with zeros in front up to the given width. -/
def padded (width n : Nat) : String :=
  let ds := (toString n).toList
  String.ofList (List.replicate (width - ds.length) '0' ++ ds)

/-- Four digits for the years 0 to 9999; any other year carries a sign and has at least four digits. -/
def yearText (year : Int) : String :=
  if 0 ≤ year ∧ year ≤ 9999 then padded 4 year.toNat
  else (if year < 0 then "-" else "+") ++ padded 4 year.natAbs

/-- The fraction of a second in as few of 0, 3, 6 and 9 digits as keep it. -/
def fractionText (nanos : Nat) : String :=
  if nanos = 0 then ""
  else if nanos % 1000000 = 0 then "." ++ padded 3 (nanos / 1000000)
  else if nanos % 1000 = 0 then "." ++ padded 6 (nanos / 1000)
  else "." ++ padded 9 nanos

/-- The RFC 3339 text of an instant, in UTC and marked with `Z`. -/
def text (t : Instant) : String :=
  let date := CalendarDay.ofEpochDays (t.seconds.fdiv 86400)
  let secondOfDay := (t.seconds.fmod 86400).toNat
  let leap := t.nanos / 1000000000
  yearText date.year ++ "-" ++ padded 2 date.month ++ "-" ++ padded 2 date.day ++ "T"
    ++ padded 2 (secondOfDay / 3600) ++ ":" ++ padded 2 (secondOfDay / 60 % 60) ++ ":"
    ++ padded 2 (secondOfDay % 60 + leap) ++ fractionText (t.nanos % 1000000000) ++ "Z"

end Instant

end GraphQuery
