import SqlBackup.Text.Hex

/-!
# SHA-256

The digest that a backup records for each dump. The message is padded to whole blocks of 64
bytes, and each block is mixed into eight words over 64 rounds. The words of the later rounds
come from a window of the last sixteen.
-/
namespace SqlBackup.Digest.Sha256

/-- The words that are added in the rounds, from the cube roots of the first 64 primes. -/
def roundConstants : List UInt32 :=
  [0x428a2f98, 0x71374491, 0xb5c0fbcf, 0xe9b5dba5, 0x3956c25b, 0x59f111f1, 0x923f82a4, 0xab1c5ed5,
   0xd807aa98, 0x12835b01, 0x243185be, 0x550c7dc3, 0x72be5d74, 0x80deb1fe, 0x9bdc06a7, 0xc19bf174,
   0xe49b69c1, 0xefbe4786, 0x0fc19dc6, 0x240ca1cc, 0x2de92c6f, 0x4a7484aa, 0x5cb0a9dc, 0x76f988da,
   0x983e5152, 0xa831c66d, 0xb00327c8, 0xbf597fc7, 0xc6e00bf3, 0xd5a79147, 0x06ca6351, 0x14292967,
   0x27b70a85, 0x2e1b2138, 0x4d2c6dfc, 0x53380d13, 0x650a7354, 0x766a0abb, 0x81c2c92e, 0x92722c85,
   0xa2bfe8a1, 0xa81a664b, 0xc24b8b70, 0xc76c51a3, 0xd192e819, 0xd6990624, 0xf40e3585, 0x106aa070,
   0x19a4c116, 0x1e376c08, 0x2748774c, 0x34b0bcb5, 0x391c0cb3, 0x4ed8aa4a, 0x5b9cca4f, 0x682e6ff3,
   0x748f82ee, 0x78a5636f, 0x84c87814, 0x8cc70208, 0x90befffa, 0xa4506ceb, 0xbef9a3f7, 0xc67178f2]

/-- The eight words that a message is mixed into. -/
structure State where
  a : UInt32
  b : UInt32
  c : UInt32
  d : UInt32
  e : UInt32
  f : UInt32
  g : UInt32
  h : UInt32

/-- The words before any block, from the square roots of the first eight primes. -/
def State.initial : State :=
  ⟨0x6a09e667, 0xbb67ae85, 0x3c6ef372, 0xa54ff53a, 0x510e527f, 0x9b05688c, 0x1f83d9ab, 0x5be0cd19⟩

def State.words (s : State) : List UInt32 := [s.a, s.b, s.c, s.d, s.e, s.f, s.g, s.h]

def State.add (s t : State) : State :=
  ⟨s.a + t.a, s.b + t.b, s.c + t.c, s.d + t.d, s.e + t.e, s.f + t.f, s.g + t.g, s.h + t.h⟩

def rotate (x : UInt32) (n : UInt32) : UInt32 := (x >>> n) ||| (x <<< (32 - n))

/-- One round with this word of the message and this constant. -/
def round (s : State) (word constant : UInt32) : State :=
  let sum1 := rotate s.e 6 ^^^ rotate s.e 11 ^^^ rotate s.e 25
  let choice := (s.e &&& s.f) ^^^ ((~~~s.e) &&& s.g)
  let t1 := s.h + sum1 + choice + constant + word
  let sum0 := rotate s.a 2 ^^^ rotate s.a 13 ^^^ rotate s.a 22
  let majority := (s.a &&& s.b) ^^^ (s.a &&& s.c) ^^^ (s.b &&& s.c)
  ⟨t1 + (sum0 + majority), s.a, s.b, s.c, s.d + t1, s.e, s.f, s.g⟩

/-- The word that enters the window behind its sixteen words. -/
def nextWord (window : Array UInt32) : UInt32 :=
  let early := window.getD 1 0
  let late := window.getD 14 0
  window.getD 0 0 + (rotate early 7 ^^^ rotate early 18 ^^^ (early >>> 3)) + window.getD 9 0 +
    (rotate late 17 ^^^ rotate late 19 ^^^ (late >>> 10))

/-- The rounds of a block, one for each constant. -/
def rounds (s : State) (window : Array UInt32) : List UInt32 → State
  | [] => s
  | constant :: constants =>
      rounds (round s (window.getD 0 0) constant)
        ((window.extract 1 16).push (nextWord window)) constants

/-- Four bytes as a word, the high byte first. -/
def word (a b c d : UInt8) : UInt32 :=
  (a.toUInt32 <<< 24) ||| (b.toUInt32 <<< 16) ||| (c.toUInt32 <<< 8) ||| d.toUInt32

/-- The words of some bytes; fewer than four at the end are left out. -/
def wordsOf : List UInt8 → List UInt32
  | a :: b :: c :: d :: bytes => word a b c d :: wordsOf bytes
  | _ => []

def block (s : State) (bytes : List UInt8) : State :=
  s.add (rounds s (wordsOf bytes).toArray roundConstants)

/-- The eight bytes of a number, the high byte first. -/
def bytes64 (n : Nat) : List UInt8 :=
  (List.range 8).map fun i => UInt8.ofNat (n >>> (8 * (7 - i)))

/-- What follows a message of this length to fill its last block: a one bit, zeros, and the
length in bits. -/
def padding (length : Nat) : List UInt8 :=
  0x80 :: List.replicate ((119 - length % 64) % 64) 0 ++ bytes64 (8 * length)

theorem length_padding (length : Nat) : (length + (padding length).length) % 64 = 0 := by
  simp only [padding, bytes64, List.cons_append, List.length_cons, List.length_append,
    List.length_replicate, List.length_map, List.length_range]
  omega

/-- Mixes whole blocks in, one after the other. -/
def blocks (s : State) : List UInt8 → State
  | [] => s
  | b :: bytes => blocks (block s (b :: bytes.take 63)) (bytes.drop 63)
termination_by bytes => bytes.length
decreasing_by simp only [List.length_drop, List.length_cons]; omega

def wordBytes (w : UInt32) : List UInt8 :=
  [(w >>> 24).toUInt8, (w >>> 16).toUInt8, (w >>> 8).toUInt8, w.toUInt8]

/-- The 32 bytes of a message's digest. -/
def digest (message : List UInt8) : List UInt8 :=
  (blocks .initial (message ++ padding message.length)).words.flatMap wordBytes

/-- The digest in hexadecimal. -/
def hex (message : List UInt8) : String := Text.Hex.lower (digest message)

@[simp] theorem length_digest (message : List UInt8) : (digest message).length = 32 := rfl

end SqlBackup.Digest.Sha256
