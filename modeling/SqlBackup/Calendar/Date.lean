import SqlBackup.Number.Positional

/-!
# Days and times of day

Dates of the Gregorian calendar, extended to all years, and times of day to the nanosecond. A
second 60 is written as second 59 with a billion nanoseconds or more.
-/
namespace SqlBackup.Calendar

/-- A day of a month of a year. -/
structure Date where
  year : Int
  month : Nat
  day : Nat
  deriving DecidableEq, Inhabited

/-- A time of day. From a billion on, `nanos` counts into a leap second. -/
structure Time where
  hour : Nat
  minute : Nat
  second : Nat
  nanos : Nat
  deriving DecidableEq, Inhabited

/-- The year with at least four digits, and with a sign outside of 0 to 9999. -/
def yearText (year : Int) : String :=
  let digits := Number.padded 4 year.natAbs
  if year < 0 then "-" ++ digits else if year > 9999 then "+" ++ digits else digits

/-- The date as `2024-02-29`. -/
def Date.text (d : Date) : String :=
  yearText d.year ++ "-" ++ Number.padded 2 d.month ++ "-" ++ Number.padded 2 d.day

/-- The time as `01:02:03`, a leap second as second 60. -/
def Time.text (t : Time) : String :=
  Number.padded 2 t.hour ++ ":" ++ Number.padded 2 t.minute ++ ":" ++
    Number.padded 2 (t.second + t.nanos / 1000000000)

end SqlBackup.Calendar
