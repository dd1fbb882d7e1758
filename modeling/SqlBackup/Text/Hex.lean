/-!
# Hexadecimal digits

Bytes are written as two digits each, the high one first.
-/
namespace SqlBackup.Text.Hex

/-- The digit of a number below 16; `ten` is the digit of 10. -/
def digit (ten : Char) (n : Nat) : Char :=
  if n < 10 then Char.ofNat (48 + n) else Char.ofNat (ten.toNat + (n - 10))

/-- The two digits of a byte. -/
def ofByte (ten : Char) (b : UInt8) : List Char :=
  [digit ten (b.toNat / 16), digit ten (b.toNat % 16)]

def lower (bytes : List UInt8) : String := String.ofList (bytes.flatMap (ofByte 'a'))

def upper (bytes : List UInt8) : String := String.ofList (bytes.flatMap (ofByte 'A'))

@[simp] theorem length_ofByte (ten : Char) (b : UInt8) : (ofByte ten b).length = 2 := rfl

theorem length_lower (bytes : List UInt8) : (lower bytes).toList.length = 2 * bytes.length := by
  induction bytes with
  | nil => simp [lower]
  | cons b bytes ih =>
    simp only [lower, String.toList_ofList, List.flatMap_cons, List.length_append,
      length_ofByte, List.length_cons] at ih ⊢
    omega

end SqlBackup.Text.Hex
