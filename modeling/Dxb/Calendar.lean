/-!
# Dates from milliseconds

The proleptic Gregorian calendar in UTC, counted in milliseconds from the start of 1970.
-/

namespace Dxb.Calendar

/-- The last millisecond that has a date, at the end of the year 262142. -/
def lastMillis : Nat := 8210266876799999

structure Date where
  year : Nat
  month : Nat
  day : Nat
deriving DecidableEq, Repr

/-- The date of a day counted from the start of 1970.  Years begin in March here, so that the leap
day is the last one, and 400 years have 146097 days. -/
def dateOfDay (day : Nat) : Date :=
  let shifted := day + 719468
  let era := shifted / 146097
  let inEra := shifted % 146097
  let yearOfEra := (inEra - inEra / 1460 + inEra / 36524 - inEra / 146096) / 365
  let inYear := inEra - (365 * yearOfEra + yearOfEra / 4 - yearOfEra / 100)
  let monthFromMarch := (5 * inYear + 2) / 153
  let month := if monthFromMarch < 10 then monthFromMarch + 3 else monthFromMarch - 9
  let year := yearOfEra + era * 400
  ⟨if month ≤ 2 then year + 1 else year, month, inYear - (153 * monthFromMarch + 2) / 5 + 1⟩

/-- A number with zeros in front up to a width. -/
def padded (width n : Nat) : String :=
  let digits := (toString n).toList
  String.ofList (List.replicate (width - digits.length) '0' ++ digits)

/-- Four digits at least; a year that has more is marked by a plus sign. -/
def yearText (year : Nat) : String :=
  if year > 9999 then "+" ++ toString year else padded 4 year

/-- The instant as `YYYY-MM-DD HH:MM:SS.mmm`, if it has a date. -/
def text? (millis : Nat) : Option String :=
  if millis > lastMillis then none
  else
    let seconds := millis / 1000
    let date := dateOfDay (seconds / 86400)
    let second := seconds % 86400
    some (yearText date.year ++ "-" ++ padded 2 date.month ++ "-" ++ padded 2 date.day ++ " " ++
      padded 2 (second / 3600) ++ ":" ++ padded 2 (second / 60 % 60) ++ ":" ++
      padded 2 (second % 60) ++ "." ++ padded 3 (millis % 1000))

end Dxb.Calendar
