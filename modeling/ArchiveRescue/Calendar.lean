import ArchiveRescue.Text.Numeral

/-
  This file defines the written forms of moments: the date
  and time of a second since 1970 and the time of day of a
  millisecond, both in universal time.

  Key definitions include:
    * `Calendar.Date`
    * `Calendar.dateOfDay`
    * `Calendar.stamp`
    * `Calendar.clock`
-/

namespace ArchiveRescue

namespace Calendar

open Text

------------------------------------------------------------
-- Dates
------------------------------------------------------------

/- A day of the Gregorian calendar. -/
structure Date where
  year : Nat
  month : Nat
  day : Nat

/-
  The date of a day counted from 1 January 1970.  Days are
  regrouped into eras of 400 years whose years begin in
  March, so that the leap day is the last day of a year.
-/
def dateOfDay (n : Nat) : Date :=
  let shifted := n + 719468
  let era := shifted / 146097
  let inEra := shifted % 146097
  let yearOfEra :=
    (inEra - inEra / 1460 + inEra / 36524 -
      inEra / 146096) / 365
  let inYear :=
    inEra - (365 * yearOfEra + yearOfEra / 4 -
      yearOfEra / 100)
  let fromMarch := (5 * inYear + 2) / 153
  let day := inYear - (153 * fromMarch + 2) / 5 + 1
  let month :=
    if fromMarch < 10 then fromMarch + 3
    else fromMarch - 9
  let year := yearOfEra + era * 400
  ⟨if month ≤ 2 then year + 1 else year, month, day⟩

/- Hours, minutes and seconds, with colons between. -/
def timeOfDay (seconds : Nat) : String :=
  padded 10 2 (seconds / 3600) ++ ":" ++
    padded 10 2 (seconds / 60 % 60) ++ ":" ++
    padded 10 2 (seconds % 60)

/- The date and time of a second counted from 1970. -/
def stamp (seconds : Nat) : String :=
  let date := dateOfDay (seconds / 86400)
  padded 10 4 date.year ++ "-" ++
    padded 10 2 date.month ++ "-" ++
    padded 10 2 date.day ++ "T" ++
    timeOfDay (seconds % 86400) ++ "+00:00"

------------------------------------------------------------
-- Times of Day
------------------------------------------------------------

/-
  The time of day of a millisecond counted from 1970.  Times
  before 1970 count back from midnight.
-/
def clock (millis : Int) : String :=
  let inDay := (millis % 86400000).toNat
  timeOfDay (inDay / 1000) ++ "." ++
    padded 10 3 (inDay % 1000)

end Calendar

end ArchiveRescue
