/-!
# XXH64

The 64-bit hash with which a Zstandard frame may check its content, for the seed 0. Stripes of 32
bytes run through four lanes; what is left over is mixed in by eight, four and one bytes.
-/
namespace SqlBackup.Digest.XxHash64

def prime1 : UInt64 := 0x9E3779B185EBCA87
def prime2 : UInt64 := 0xC2B2AE3D27D4EB4F
def prime3 : UInt64 := 0x165667B19E3779F9
def prime4 : UInt64 := 0x85EBCA77C2B2AE63
def prime5 : UInt64 := 0x27D4EB2F165667C5

def rotateLeft (x n : UInt64) : UInt64 := (x <<< n) ||| (x >>> (64 - n))

/-- A number from its bytes, the low byte first. -/
def number (bytes : List UInt8) : UInt64 :=
  bytes.foldr (fun b n => (n <<< 8) ||| b.toUInt64) 0

def round (lane input : UInt64) : UInt64 := rotateLeft (lane + input * prime2) 31 * prime1

/-- The four lanes of the stripes. -/
structure Lanes where
  v1 : UInt64
  v2 : UInt64
  v3 : UInt64
  v4 : UInt64

def Lanes.initial : Lanes := ⟨prime1 + prime2, prime2, 0, 0 - prime1⟩

/-- Mixes whole stripes into the lanes and returns the bytes left over. -/
def stripes (l : Lanes) (bytes : List UInt8) : Lanes × List UInt8 :=
  if _short : (bytes.drop 31).isEmpty then (l, bytes)
  else
    stripes
      ⟨round l.v1 (number (bytes.take 8)), round l.v2 (number ((bytes.drop 8).take 8)),
        round l.v3 (number ((bytes.drop 16).take 8)),
        round l.v4 (number ((bytes.drop 24).take 8))⟩
      (bytes.drop 32)
termination_by bytes.length
decreasing_by
  simp only [List.isEmpty_iff, List.drop_eq_nil_iff] at _short
  simp only [List.length_drop]
  omega

def mergeLane (hash lane : UInt64) : UInt64 := (hash ^^^ round 0 lane) * prime1 + prime4

def Lanes.merge (l : Lanes) : UInt64 :=
  let hash := rotateLeft l.v1 1 + rotateLeft l.v2 7 + rotateLeft l.v3 12 + rotateLeft l.v4 18
  mergeLane (mergeLane (mergeLane (mergeLane hash l.v1) l.v2) l.v3) l.v4

def byte (hash : UInt64) (b : UInt8) : UInt64 :=
  rotateLeft (hash ^^^ (b.toUInt64 * prime5)) 11 * prime1

/-- Mixes in the bytes behind the last stripe. -/
def rest (hash : UInt64) : List UInt8 → UInt64
  | a :: b :: c :: d :: e :: f :: g :: h :: bytes =>
      rest (rotateLeft (hash ^^^ round 0 (number [a, b, c, d, e, f, g, h])) 27 * prime1 + prime4)
        bytes
  | a :: b :: c :: d :: bytes =>
      bytes.foldl byte
        (rotateLeft (hash ^^^ (number [a, b, c, d] * prime1)) 23 * prime2 + prime3)
  | bytes => bytes.foldl byte hash

def avalanche (hash : UInt64) : UInt64 :=
  let x := (hash ^^^ (hash >>> 33)) * prime2
  let y := (x ^^^ (x >>> 29)) * prime3
  y ^^^ (y >>> 32)

/-- The hash of a message. -/
def hash (message : List UInt8) : UInt64 :=
  let (lanes, left) := stripes .initial message
  let start := if message.length < 32 then prime5 else lanes.merge
  avalanche (rest (start + message.length.toUInt64) left)

end SqlBackup.Digest.XxHash64
