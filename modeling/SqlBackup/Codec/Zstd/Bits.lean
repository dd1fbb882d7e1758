import SqlBackup.Codec.Output

/-!
# Bit streams of Zstandard

Descriptions of codes are read forwards, lowest bit first. Coded data is read backwards, from the
highest bit on: the topmost one bit only marks where the data ends.
-/
namespace SqlBackup.Codec.Zstd

/-- The number in the byte at an index, zero behind the end. -/
def byteNumber (input : ByteArray) (i : Nat) : Nat := (byteAt input i).toNat

/-- The number in `count` bytes, the low byte first. -/
def numberAt (input : ByteArray) (i count : Nat) : Nat :=
  (List.range count).foldr (fun k n => n * 256 + byteNumber input (i + k)) 0

/-- The bit of this index, counted from the byte at `base`. -/
def bitAt (input : ByteArray) (base i : Nat) : Nat :=
  byteNumber input (base + i / 8) / Nat.pow 2 (i % 8) % 2

/-- The number in the `count` bits from this index on; bits at or beyond `limit` are zero. -/
def bitsAt (input : ByteArray) (base limit i count : Nat) : Nat :=
  (List.range count).foldr
    (fun k n => 2 * n + if i + k < limit then bitAt input base (i + k) else 0) 0

/-- The number of binary digits of a number, less one. -/
def log2 (n : Nat) : Nat := n.log2

/-- A stream that is read backwards. -/
structure Backward where
  /-- The offset of its first byte. -/
  base : Nat
  /-- The bits that are left; negative once more were taken than there are. -/
  left : Int
  deriving Inhabited

namespace Backward

/-- The stream in these bytes. The last one holds the mark. -/
def ofBytes? (input : ByteArray) (base length : Nat) : Option Backward :=
  if length = 0 then none
  else
    let last := byteNumber input (base + length - 1)
    if last = 0 then none else some ⟨base, (8 * (length - 1) + log2 last : Nat)⟩

/-- The next `count` bits without taking them. Bits that are missing are zero. -/
def peek (input : ByteArray) (b : Backward) (count : Nat) : Nat :=
  (List.range count).foldl
    (fun (n k : Nat) =>
      let i : Int := b.left - 1 - k
      2 * n + if i < 0 then 0 else bitAt input b.base i.toNat)
    0

def drop (b : Backward) (count : Nat) : Backward := { b with left := b.left - count }

def take (input : ByteArray) (b : Backward) (count : Nat) : Nat × Backward :=
  (b.peek input count, b.drop count)

/-- Whether more bits were taken than there were. -/
def overrun (b : Backward) : Bool := b.left < 0

/-- Whether every bit was taken. -/
def exhausted (b : Backward) : Bool := b.left == 0

end Backward

end SqlBackup.Codec.Zstd
