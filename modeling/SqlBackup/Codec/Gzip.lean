import SqlBackup.Codec.Inflate
import SqlBackup.Digest.Crc32

/-!
# Gzip files

A file is a sequence of members, each with a header, a deflate stream, and a trailer that checks
it. Bytes can be stored as they are, in a member that says what it holds and no more.
-/
namespace SqlBackup.Codec.Gzip

/-- How much of a file is looked at in one go. -/
def stretchSize : Nat := 32 * 1024

/-- The longest name or comment of a header. -/
def textLimit : Nat := 65535

/-- The number in `count` bytes, the low byte first. -/
def numberAt (input : ByteArray) (i count : Nat) : Nat :=
  (List.range count).foldr (fun k n => n * 256 + (byteAt input (i + k)).toNat) 0

/-- The offset behind a number of bytes. -/
def skip (input : ByteArray) (i count : Nat) : Except Trouble Nat :=
  if input.size < i + count then .error .cutShort else .ok (i + count)

/-- The offset behind a text that a zero byte ends. -/
def skipText (input : ByteArray) (i : Nat) : Except Trouble Nat :=
  match ((input.extract i input.size).data.toList).findIdx? (· == 0) with
  | some n => if textLimit < n then .error .corrupt else .ok (i + n + 1)
  | none => .error (if textLimit < input.size - i then .corrupt else .cutShort)

/-- The offset behind the header that starts here. -/
def header (input : ByteArray) (i : Nat) : Except Trouble Nat := do
  let fixed ← skip input i 10
  let flags := byteAt input (i + 3)
  if byteAt input i != 0x1F || byteAt input (i + 1) != 0x8B || byteAt input (i + 2) != 8 ||
      flags &&& 0xE0 != 0 then
    .error .corrupt
  else
    let extra ←
      if flags &&& 4 == 0 then .ok fixed
      else do
        let j ← skip input fixed 2
        skip input j (numberAt input fixed 2)
    let name ← if flags &&& 8 == 0 then .ok extra else skipText input extra
    let comment ← if flags &&& 16 == 0 then .ok name else skipText input name
    if flags &&& 2 == 0 then .ok comment
    else do
      let behind ← skip input comment 2
      let code := Digest.Crc32.code (input.extract i comment).data.toList
      if code.toNat % 65536 = numberAt input comment 2 then .ok behind else .error .corrupt

/-- Reads members up to the end of the input. Each has a byte at least. -/
def members (input : ByteArray) : Nat → Nat → Output → Output × Option Trouble
  | 0, _, o => (o, none)
  | fuel + 1, i, o =>
      match header input i with
      | .error trouble => (o, some trouble)
      | .ok body =>
          let start := o.bytes.size
          match Inflate.blocks input (8 * input.size + 1) ⟨8 * body, o.touch (body - 1), start⟩ with
          | .error (.cutShort, s) => (s.output.settle, some .cutShort)
          | .error (.corrupt, s) => (s.output, some .corrupt)
          | .ok (_, s) =>
              let o := s.output.settle
              let trailer := (s.position + 7) / 8
              match skip input trailer 8 with
              | .error trouble => (o, some trouble)
              | .ok behind =>
                  let content := (o.bytes.extract start o.bytes.size).data.toList
                  if (Digest.Crc32.code content).toNat != numberAt input trailer 4 ||
                      content.length % Nat.pow 2 32 != numberAt input (trailer + 4) 4 then
                    (o, some .corrupt)
                  else if input.size ≤ behind then (o, none)
                  else members input fuel behind o

def fault : Trouble → IoFault
  | .cutShort => .layer .unexpectedEof "unexpected end of file"
  | .corrupt => .layer .invalidInput "corrupt gzip data"

/-- What a reader gets of a gzip file. There is one member at least. -/
def decode (demand : Demand) (content : Files.Content) : Decoded :=
  let input := content.bytes.toByteArray
  let (o, trouble) := members input (input.size + 1) 0 (.empty stretchSize demand)
  ⟨o.kept, failureOf fault content.failure trouble⟩

/-- The bytes of a number, the low byte first. -/
def bytesOf (count n : Nat) : List UInt8 :=
  (List.range count).map fun i => UInt8.ofNat (n / Nat.pow 256 i)

/-- The most bytes of a stored block. -/
def blockLimit : Nat := 65535

/-- Stored blocks with these bytes; the last one is marked. -/
def storedBlocks (bytes : List UInt8) : List UInt8 :=
  let body := bytes.take blockLimit
  let header (last : UInt8) := last :: bytesOf 2 body.length ++ bytesOf 2 (65535 - body.length)
  if _short : (bytes.drop blockLimit).isEmpty then header 1 ++ body
  else header 0 ++ body ++ storedBlocks (bytes.drop blockLimit)
termination_by bytes.length
decreasing_by
  simp only [List.isEmpty_iff, List.drop_eq_nil_iff, blockLimit] at _short
  simp only [List.length_drop, blockLimit]
  omega

/-- A gzip file of one member. -/
def encode (bytes : List UInt8) : List UInt8 :=
  [0x1F, 0x8B, 8, 0, 0, 0, 0, 0, 0, 0xFF] ++ storedBlocks bytes ++
    bytesOf 4 (Digest.Crc32.code bytes).toNat ++ bytesOf 4 bytes.length

end SqlBackup.Codec.Gzip
