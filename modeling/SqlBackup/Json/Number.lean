import SqlBackup.Json.Reader

/-!
# Numbers of JSON

A number is a natural number of 64 bits or some other number, of which only the form counts here
and that it is not too large for binary64.
-/
namespace SqlBackup.Json

/-- A number as a reader of counts sees it. -/
inductive Number where
  | natural (n : Nat)
  | other
  deriving DecidableEq, Inhabited

/-- The number that decimal digits spell. -/
def decimal (digits : List Char) : Nat := digits.foldl (fun n c => n * 10 + (c.toNat - 48)) 0

/-- Cuts the digits off the front. -/
def digits (cs : List Char) : List Char × List Char :=
  (cs.takeWhile Char.isDigit, cs.dropWhile Char.isDigit)

/-- One digit at least. -/
def someDigits : Reader (List Char) := fun cs =>
  match digits cs with
  | ([], []) => .error .cutShort
  | ([], _) => .error .malformed
  | (ds, rest) => .ok (ds, rest)

/-- The digits in front of the point. No zero stands before others. -/
def wholeDigits : Reader (List Char) := fun cs => do
  let (ds, rest) ← someDigits cs
  match ds with
  | '0' :: _ :: _ => .error .malformed
  | ds => .ok (ds, rest)

/-- A sign and the rest. -/
def signed : List Char → Bool × List Char
  | '+' :: cs => (false, cs)
  | '-' :: cs => (true, cs)
  | cs => (false, cs)

/-- The parts of a number without its sign. -/
structure Parts where
  whole : List Char
  fraction : Option (List Char)
  /-- Whether the exponent is negative, and its digits. -/
  exponent : Option (Bool × List Char)
  deriving Inhabited

/-- The digits behind a point, if there is one. -/
def fractionPart : Reader (Option (List Char))
  | '.' :: cs => do
      let (ds, rest) ← someDigits cs
      .ok (some ds, rest)
  | cs => .ok (none, cs)

/-- The exponent, if there is one. -/
def exponentPart : Reader (Option (Bool × List Char))
  | [] => .ok (none, [])
  | c :: cs =>
      if c == 'e' || c == 'E' then do
        let (negative, cs) := signed cs
        let (ds, rest) ← someDigits cs
        .ok (some (negative, ds), rest)
      else .ok (none, c :: cs)

/-- A number without its sign. -/
def numberParts : Reader Parts := fun cs => do
  let (whole, cs) ← wholeDigits cs
  let (fraction, cs) ← fractionPart cs
  let (exponent, cs) ← exponentPart cs
  .ok (⟨whole, fraction, exponent⟩, cs)

namespace Parts

/-- All digits of the number, without zeros in front. -/
def significant (p : Parts) : List Char :=
  (p.whole ++ p.fraction.getD []).dropWhile (· == '0')

/-- The power of ten that the last digit counts. -/
def scale (p : Parts) : Int :=
  let exponent : Int := match p.exponent with
    | none => 0
    | some (true, ds) => -(decimal ds : Int)
    | some (false, ds) => decimal ds
  exponent - (p.fraction.getD []).length

/-- From here on numbers are rounded to no binary64 number. -/
def overflowBound : Nat := Nat.pow 2 1024 - Nat.pow 2 970

/-- Whether the number is too large. With more than 310 digits in front of the point it is; with
fewer than 308 it is not. -/
def isTooLarge (p : Parts) : Bool :=
  let ds := p.significant
  let size : Int := ds.length + p.scale
  if ds.isEmpty || size < 308 then false
  else if 310 < size then true
  else if 0 ≤ p.scale then overflowBound ≤ decimal ds * Nat.pow 10 p.scale.toNat
  else overflowBound * Nat.pow 10 (-p.scale).toNat ≤ decimal ds

/-- The number, if it is a count. -/
def number (p : Parts) : Number :=
  match p.fraction, p.exponent with
  | none, none =>
      let n := decimal p.whole
      if n < Nat.pow 2 64 then .natural n else .other
  | _, _ => .other

end Parts

/-- A number. None that has a sign is a count. -/
def number : Reader Number := fun cs => do
  let (negative, cs) := match cs with
    | '-' :: cs => (true, cs)
    | cs => (false, cs)
  let (parts, rest) ← numberParts cs
  if parts.isTooLarge then .error .malformed
  else .ok (if negative then .other else parts.number, rest)

/-- Passes over a number. Here one that is cut short counts as malformed. -/
def skipNumber (cs : List Char) : Except ManifestFault (List Char) :=
  match numberParts (match cs with
    | '-' :: cs => cs
    | cs => cs) with
  | .ok (_, rest) => .ok rest
  | .error _ => .error .malformed

end SqlBackup.Json
