/-!
# UTF-8 text

Reading bytes as text, either strictly, where one ill-formed sequence refuses the whole, or
leniently, where each ill-formed sequence becomes one replacement character. A sequence is
well formed when it is a row of the table of the Unicode standard: no overlong form, no surrogate
and nothing above U+10FFFF.
-/
namespace SqlBackup.Text.Utf8

/-- The bytes of a text. -/
def encode (s : String) : List UInt8 := s.toUTF8.data.toList

/-- The text that the bytes spell, if they are well-formed UTF-8. -/
def decode? (bytes : List UInt8) : Option String := String.fromUTF8? bytes.toByteArray

/-- A byte `10xxxxxx`. -/
def isTail (b : UInt8) : Bool := 0x80 ≤ b && b ≤ 0xBF

/-- How many bytes a sequence that starts with this byte has, and the range its second byte
must lie in; nothing when no sequence starts so. -/
def lead? (b : UInt8) : Option (Nat × UInt8 × UInt8) :=
  if b < 0x80 then some (1, 0x80, 0xBF)
  else if 0xC2 ≤ b && b ≤ 0xDF then some (2, 0x80, 0xBF)
  else if b == 0xE0 then some (3, 0xA0, 0xBF)
  else if b == 0xED then some (3, 0x80, 0x9F)
  else if 0xE1 ≤ b && b ≤ 0xEF then some (3, 0x80, 0xBF)
  else if b == 0xF0 then some (4, 0x90, 0xBF)
  else if b == 0xF4 then some (4, 0x80, 0x8F)
  else if 0xF1 ≤ b && b ≤ 0xF3 then some (4, 0x80, 0xBF)
  else none

/-- The code point of a complete sequence of this length, from the payload bits of its bytes. -/
def payload (first : UInt8) (tail : List UInt8) : Nat :=
  let bits := match tail.length with
    | 0 => first.toNat
    | 1 => first.toNat % 32
    | 2 => first.toNat % 16
    | _ => first.toNat % 8
  tail.foldl (fun n b => n * 64 + b.toNat % 64) bits

/-- The longest stretch of `bytes` that continues a sequence: at most `want` bytes, the first of
them within `lo` and `hi`, the others any tail byte. -/
def continuation (want : Nat) (lo hi : UInt8) : List UInt8 → List UInt8
  | [] => []
  | b :: bytes =>
      if want = 0 then []
      else if lo ≤ b && b ≤ hi then b :: (bytes.take (want - 1)).takeWhile isTail
      else []

/-- What a reader finds at the front of some bytes. -/
inductive Front where
  /-- A character and how many bytes it takes beyond the first. -/
  | char (c : Char) (more : Nat)
  /-- An ill-formed sequence of this many bytes beyond the first. -/
  | broken (more : Nat)

/-- Reads one character, or the longest start of one that breaks off. -/
def front (b : UInt8) (bytes : List UInt8) : Front :=
  match lead? b with
  | none => .broken 0
  | some (n, lo, hi) =>
      let tail := continuation (n - 1) lo hi bytes
      if tail.length + 1 = n then .char (Char.ofNat (payload b tail)) tail.length
      else .broken tail.length

/-- The characters of some bytes, with U+FFFD for each ill-formed sequence. -/
def lenientChars : List UInt8 → List Char
  | [] => []
  | b :: bytes =>
      match front b bytes with
      | .char c more => c :: lenientChars (bytes.drop more)
      | .broken more => '\uFFFD' :: lenientChars (bytes.drop more)
termination_by bytes => bytes.length
decreasing_by all_goals simp only [List.length_drop, List.length_cons]; omega

/-- The text of some bytes, with U+FFFD for each ill-formed sequence. -/
def decodeLenient (bytes : List UInt8) : String :=
  match decode? bytes with
  | some s => s
  | none => String.ofList (lenientChars bytes)

end SqlBackup.Text.Utf8
