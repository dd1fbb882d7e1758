/-!
# Whole numbers in digits

A number is read from its digits, of which there has to be one at least. Digits above nine are
letters, large or small.
-/
namespace SqlBackup.Number

/-- The value of a digit. -/
def digit? (c : Char) : Option Nat :=
  if c.isDigit then some (c.toNat - 48)
  else if c.isLower then some (c.toNat - 87)
  else if c.isUpper then some (c.toNat - 55)
  else none

/-- Reads digits behind others that have the value `n`. -/
def digitsFrom? (base n : Nat) : List Char → Option Nat
  | [] => some n
  | c :: cs =>
      match digit? c with
      | some d => if d < base then digitsFrom? base (n * base + d) cs else none
      | none => none

/-- The number with these digits. -/
def ofDigits? (base : Nat) (cs : List Char) : Option Nat :=
  if cs.isEmpty then none else digitsFrom? base 0 cs

/-- The decimal number with these digits, which a plus may come before. -/
def natural? (cs : List Char) : Option Nat :=
  match cs with
  | '+' :: digits => ofDigits? 10 digits
  | digits => ofDigits? 10 digits

/-- The decimal number with these digits, which a sign may come before. -/
def integer? (cs : List Char) : Option Int :=
  match cs with
  | '-' :: digits => (ofDigits? 10 digits).map fun n => -(n : Int)
  | cs => (natural? cs).map Int.ofNat

/-- The natural number, if it fits into so many bits. -/
def within? (bits n : Nat) : Option Nat := if n < Nat.pow 2 bits then some n else none

/-- The integer, if it fits into so many bits with its sign. -/
def signedWithin? (bits : Nat) (n : Int) : Option Int :=
  if -(Nat.pow 2 (bits - 1) : Int) ≤ n ∧ n < Nat.pow 2 (bits - 1) then some n else none

@[simp] theorem ofDigits?_nil (base : Nat) : ofDigits? base [] = none := rfl

theorem within?_eq_some {bits n m : Nat} (h : within? bits n = some m) :
    m = n ∧ n < Nat.pow 2 bits := by
  simp only [within?] at h
  split at h
  · exact ⟨(Option.some.inj h).symm, ‹_›⟩
  · cases h

end SqlBackup.Number
