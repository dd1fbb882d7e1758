import SqlBackup.Number.Positional

/-!
# Double precision numbers

A number is its 64 bits: a sign, an exponent and a significand. A finite number is shown by the
fewest digits that read back as the same number, and the nearest such digits; of two equally near
the greater in size is taken. The text has no exponent, and no point where the number is whole.
-/
namespace SqlBackup.Number

/-- A number in the 64-bit binary interchange format. -/
structure Binary64 where
  bits : UInt64
  deriving DecidableEq, Inhabited

namespace Binary64

def isNegative (x : Binary64) : Bool := x.bits >>> 63 == 1

def exponentField (x : Binary64) : Nat := ((x.bits >>> 52) &&& 0x7FF).toNat

def fractionField (x : Binary64) : Nat := (x.bits &&& 0xFFFFFFFFFFFFF).toNat

def isFinite (x : Binary64) : Bool := x.exponentField != 0x7FF

def isNaN (x : Binary64) : Bool := !x.isFinite && x.fractionField != 0

/-- The significand of a finite number. -/
def significand (x : Binary64) : Nat :=
  if x.exponentField = 0 then x.fractionField else Nat.pow 2 52 + x.fractionField

/-- The power of two that the significand of a finite number is multiplied by. -/
def power (x : Binary64) : Int := (max 1 x.exponentField : Nat) - 1075

/-- The size of a positive number and the interval of sizes that round to it, as multiples of
`1 / unit`. The ends belong to the interval when the significand is even. -/
structure Rounding where
  value : Nat
  low : Nat
  high : Nat
  unit : Nat
  closed : Bool

/-- The interval of a finite number that is not zero. Below a power of two the next number is
only half as far away. -/
def rounding (x : Binary64) : Rounding :=
  let m := x.significand
  let below := if x.fractionField = 0 && 1 < x.exponentField then 1 else 2
  let scale := Nat.pow 2 (x.power - 2).toNat
  { value := 4 * m * scale
    low := (4 * m - below) * scale
    high := (4 * m + 2) * scale
    unit := Nat.pow 2 (2 - x.power).toNat
    closed := m % 2 = 0 }

/-- Whether the number `count * top / bottom` rounds to the value of the interval. -/
def Rounding.holds (r : Rounding) (count top bottom : Nat) : Bool :=
  let point := count * top * r.unit
  if r.closed then r.low * bottom ≤ point && point ≤ r.high * bottom
  else r.low * bottom < point && point < r.high * bottom

/-- Enough decimal places for every number. -/
def places : Nat := 400

/-- The number of digits before the decimal point, negative for zeros behind it. -/
def Rounding.magnitude (r : Rounding) : Int :=
  ((toString (r.value * Nat.pow 10 places / r.unit)).length : Int) - (places : Int)

/-- The multiple of `10^exponent` that is nearest to the value, if it rounds to it. -/
def Rounding.onGrid? (r : Rounding) (exponent : Int) : Option Nat :=
  let top := Nat.pow 10 (exponent + (places : Int)).toNat
  let bottom := Nat.pow 10 places
  let below := r.value * bottom / (top * r.unit)
  let twice := 2 * r.value * bottom
  let middle := (2 * below + 1) * top * r.unit
  let nearer := if twice < middle then below else below + 1
  let other := if twice < middle then below + 1 else below
  if r.holds nearer top bottom then some nearer
  else if r.holds other top bottom then some other
  else none

/-- The coarsest of the next `fuel` grids on which a multiple rounds to the value. -/
def Rounding.shortest (r : Rounding) : Nat → Int → Nat × Int
  | 0, exponent => (0, exponent)
  | fuel + 1, exponent =>
      match r.onGrid? exponent with
      | some count => (count, exponent)
      | none => r.shortest fuel (exponent - 1)

/-- The text of the size of a finite number. Seventeen digits always suffice. -/
def sizeText (x : Binary64) : String :=
  if x.significand = 0 then "0"
  else
    let r := x.rounding
    let (count, exponent) := r.shortest 17 (r.magnitude - 1)
    positional count exponent

/-- The text of a number. -/
def text (x : Binary64) : String :=
  if x.isNaN then "NaN"
  else
    let size := if x.isFinite then x.sizeText else "inf"
    if x.isNegative then "-" ++ size else size

end Binary64

end SqlBackup.Number
