import SqlBackup.Calendar.Date

/-!
# Points in time

A point in time is a number of seconds since the start of 1970 and a number of nanoseconds. Days
are counted from the same start, and a count of days and a date determine each other.
-/
namespace SqlBackup.Calendar

/-- A point in time. From a billion on, `nanos` counts into a leap second. -/
structure Instant where
  seconds : Int
  nanos : Nat
  deriving DecidableEq, Inhabited

/-- The days from the start of 1970 to a date. Years are taken to start in March, so that the
leap day is the last of its year; 400 years have 146097 days. -/
def Date.toDays (d : Date) : Int :=
  let year := if d.month ≤ 2 then d.year - 1 else d.year
  let era := year.fdiv 400
  let yearOfEra := year - era * 400
  let monthOfYear : Nat := (d.month + 9) % 12
  let dayOfYear : Int := (153 * monthOfYear + 2) / 5 + d.day - 1
  era * 146097 + yearOfEra * 365 + yearOfEra / 4 - yearOfEra / 100 + dayOfYear - 719468

/-- The date that many days after the start of 1970. -/
def Date.ofDays (days : Int) : Date :=
  let shifted := days + 719468
  let era := shifted.fdiv 146097
  let dayOfEra := (shifted - era * 146097).toNat
  let yearOfEra :=
    (dayOfEra - dayOfEra / 1460 + dayOfEra / 36524 - dayOfEra / 146096) / 365
  let dayOfYear := dayOfEra - (365 * yearOfEra + yearOfEra / 4 - yearOfEra / 100)
  let monthOfYear := (5 * dayOfYear + 2) / 153
  let month := if monthOfYear < 10 then monthOfYear + 3 else monthOfYear - 9
  let year := era * 400 + yearOfEra
  ⟨if month ≤ 2 then year + 1 else year, month, dayOfYear - (153 * monthOfYear + 2) / 5 + 1⟩

namespace Instant

/-- The date, in universal time. -/
def date (i : Instant) : Date := .ofDays (i.seconds.fdiv 86400)

/-- The time of day, in universal time. -/
def time (i : Instant) : Time :=
  let second := (i.seconds.fmod 86400).toNat
  ⟨second / 3600, second / 60 % 60, second % 60, i.nanos⟩

/-- The decimals of a second, in groups of three, none where there are none. -/
def decimals (nanos : Nat) : String :=
  if nanos = 0 then ""
  else if nanos % 1000000 = 0 then "." ++ Number.padded 3 (nanos / 1000000)
  else if nanos % 1000 = 0 then "." ++ Number.padded 6 (nanos / 1000)
  else "." ++ Number.padded 9 nanos

/-- The point in time as `2024-02-29T01:02:03.5`, in universal time, with what names the zone
behind it. -/
def text (i : Instant) (zone : String) : String :=
  i.date.text ++ "T" ++ i.time.text ++ decimals (i.nanos % 1000000000) ++ zone

/-- The point in time in digits only, such as `20240229-010203`. -/
def compact (i : Instant) : String :=
  let d := i.date
  let t := i.time
  yearText d.year ++ Number.padded 2 d.month ++ Number.padded 2 d.day ++ "-" ++
    Number.padded 2 t.hour ++ Number.padded 2 t.minute ++
    Number.padded 2 (t.second + t.nanos / 1000000000)

end Instant

end SqlBackup.Calendar
