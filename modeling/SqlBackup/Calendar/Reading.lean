import SqlBackup.Calendar.Instant
import SqlBackup.Text.Blank

/-!
# Reading points in time

A point in time is read from a date, a time of day and the distance of its zone from universal
time. Blanks may stand between the parts, zeros in front may be missing, and letters may be small.
-/
namespace SqlBackup.Calendar

def isLeapYear (year : Int) : Bool :=
  year.fmod 4 == 0 && (year.fmod 100 != 0 || year.fmod 400 == 0)

def daysIn (year : Int) (month : Nat) : Nat :=
  if month == 2 then if isLeapYear year then 29 else 28
  else if month == 4 || month == 6 || month == 9 || month == 11 then 30
  else 31

/-- The years that a date can have. -/
def yearInRange (year : Int) : Bool := -262143 ≤ year && year ≤ 262142

def Date.isValid (d : Date) : Bool :=
  yearInRange d.year && 1 ≤ d.month && d.month ≤ 12 && 1 ≤ d.day && d.day ≤ daysIn d.year d.month

namespace Reading

/-- Reads something from the front of a text. -/
abbrev Reader (α : Type) := List Char → Option (α × List Char)

/-- One digit at least, and as many as there are, up to `most`. -/
def digits (most : Nat) : Reader Nat := fun cs =>
  let ds := (cs.take most).takeWhile Char.isDigit
  if ds.isEmpty then none
  else some (ds.foldl (fun n c => n * 10 + (c.toNat - 48)) 0, cs.drop ds.length)

/-- A number behind blanks, within bounds. -/
def field (low high : Nat) : Reader Nat := fun cs => do
  let (n, rest) ← digits 2 (Text.trimStartChars cs)
  if low ≤ n ∧ n ≤ high then some (n, rest) else none

/-- A character behind blanks. -/
def mark (c : Char) (cs : List Char) : Option (List Char) :=
  match Text.trimStartChars cs with
  | [] => none
  | d :: rest => if d == c then some rest else none

/-- A year of four digits at most, or of any number behind a sign. -/
def year : Reader Int := fun cs =>
  match Text.trimStartChars cs with
  | '-' :: cs => (digits cs.length cs).map fun (n, rest) => (-(n : Int), rest)
  | '+' :: cs => (digits cs.length cs).map fun (n, rest) => ((n : Int), rest)
  | cs => (digits 4 cs).map fun (n, rest) => ((n : Int), rest)

def date : Reader Date := fun cs => do
  let (year, cs) ← year cs
  let (month, cs) ← field 1 12 (← mark '-' cs)
  let (day, cs) ← field 1 31 (← mark '-' cs)
  let d : Date := ⟨year, month, day⟩
  if d.isValid then some (d, cs) else none

/-- The decimals of a second, if there are any. Those behind the ninth are dropped. -/
def decimals : Reader Nat
  | '.' :: cs => do
      let (n, rest) ← digits 9 cs
      some (n * Nat.pow 10 (9 - (cs.length - rest.length)), rest.dropWhile Char.isDigit)
  | cs => some (0, cs)

/-- A time of day. Its second may be 60. -/
def time : Reader Time := fun cs => do
  let (hour, cs) ← field 0 23 cs
  let (minute, cs) ← field 0 59 (← mark ':' cs)
  let (second, cs) ← field 0 60 (← mark ':' cs)
  let (nanos, cs) ← decimals cs
  if second = 60 then some (⟨hour, minute, 59, 1000000000 + nanos⟩, cs)
  else some (⟨hour, minute, second, nanos⟩, cs)

/-- Two digits. -/
def pair : Reader Nat
  | a :: b :: rest =>
      if a.isDigit && b.isDigit then some ((a.toNat - 48) * 10 + (b.toNat - 48), rest) else none
  | _ => none

/-- Hours and minutes, with colons or blanks between them if there are any, in seconds. -/
def distance : Reader Nat := fun cs => do
  let (hours, cs) ← pair cs
  let (minutes, rest) ← pair (cs.dropWhile fun c => c == ':' || Text.isBlank c)
  if minutes < 60 then some (hours * 3600 + minutes * 60, rest) else none

/-- How many seconds a zone is ahead of universal time. -/
def zone (cs : List Char) : Option (Int × List Char) :=
  let cs := Text.trimStartChars cs
  if (cs.take 3).map Char.toUpper == ['U', 'T', 'C'] then some (0, cs.drop 3)
  else
    match cs with
    | [] => none
    | c :: rest =>
        if c == 'Z' || c == 'z' then some (0, rest)
        else if c == '+' then (distance rest).map fun (n, rest) => ((n : Int), rest)
        else if c == '-' || c == '−' then (distance rest).map fun (n, rest) => (-(n : Int), rest)
        else none

end Reading

/-- The point in time at which a zone so far ahead has this date and time. -/
def Instant.ofLocal (d : Date) (t : Time) (ahead : Int) : Instant :=
  ⟨d.toDays * 86400 + (t.hour * 3600 + t.minute * 60 + t.second : Nat) - ahead, t.nanos⟩

/-- Reads a point in time. No zone is a day or more away. -/
def Instant.ofText? (s : String) : Option Instant := do
  let (d, cs) ← Reading.date s.toList
  let (t, cs) ← match cs with
    | c :: cs => if c == 'T' || c == 't' || c == ' ' then Reading.time cs else none
    | [] => none
  let (ahead, cs) ← Reading.zone cs
  let i := Instant.ofLocal d t ahead
  if (Text.trimStartChars cs).isEmpty && ahead.natAbs < 86400 && yearInRange i.date.year then some i
  else none

end SqlBackup.Calendar
