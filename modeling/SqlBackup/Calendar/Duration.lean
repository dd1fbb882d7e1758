/-!
# Lengths of time

A length of time is a number of nanoseconds. It is shown in the largest unit that leaves a
non-zero whole part, with a fraction only as long as it needs to be.
-/
namespace SqlBackup.Calendar

/-- A length of time. -/
structure Duration where
  nanos : Nat
  deriving DecidableEq, Inhabited

namespace Duration

def ofMillis (ms : Nat) : Duration := ⟨ms * 1000000⟩

def ofSeconds (s : Nat) : Duration := ⟨s * 1000000000⟩

/-- The digits of `part`, which counts units of 10^-`width`, without zeros at the end. -/
def fraction (part width : Nat) : String :=
  let digits := (toString part).toList
  let padded := List.replicate (width - digits.length) '0' ++ digits
  let shown := (padded.reverse.dropWhile (· == '0')).reverse
  if shown.isEmpty then "" else "." ++ String.ofList shown

/-- The amount in a unit of 10^`width` nanoseconds. -/
def inUnit (nanos width : Nat) (unit : String) : String :=
  toString (nanos / Nat.pow 10 width) ++ fraction (nanos % Nat.pow 10 width) width ++ unit

/-- The length as a report shows it, such as `5s`, `1.5ms` or `20ns`. -/
def text (d : Duration) : String :=
  if d.nanos ≥ 1000000000 then inUnit d.nanos 9 "s"
  else if d.nanos ≥ 1000000 then inUnit d.nanos 6 "ms"
  else if d.nanos ≥ 1000 then inUnit d.nanos 3 "µs"
  else inUnit d.nanos 0 "ns"

end Duration

end SqlBackup.Calendar
