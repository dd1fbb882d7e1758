/-!
# CRC-32

The cyclic redundancy code of gzip: the remainder of the message by a polynomial of degree 32,
with bits taken lowest first.
-/
namespace SqlBackup.Digest.Crc32

/-- The polynomial, lowest degree in the highest bit. -/
def polynomial : UInt32 := 0xEDB88320

/-- One division step. -/
def shift (r : UInt32) : UInt32 :=
  if r &&& 1 == 1 then (r >>> 1) ^^^ polynomial else r >>> 1

/-- The remainder after one more byte. -/
def step (r : UInt32) (b : UInt8) : UInt32 :=
  shift (shift (shift (shift (shift (shift (shift (shift (r ^^^ b.toUInt32))))))))

/-- The code of a message. -/
def code (message : List UInt8) : UInt32 := ~~~(message.foldl step 0xFFFFFFFF)

end SqlBackup.Digest.Crc32
