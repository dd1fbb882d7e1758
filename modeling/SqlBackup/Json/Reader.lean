import SqlBackup.Fault

/-!
# Reading JSON piece by piece

A reader takes what it wants from the front of a text and returns the rest. The first thing that
is wrong stops it, so a value of the wrong shape is told before a mistake further on.
-/
namespace SqlBackup.Json

/-- Reads something from the front of a text. -/
abbrev Reader (α : Type) := List Char → Except ManifestFault (α × List Char)

/-- The blanks of JSON. -/
def isBlank (c : Char) : Bool := c == ' ' || c == '\n' || c == '\t' || c == '\r'

/-- Drops the blanks in front. -/
def skipBlanks (cs : List Char) : List Char := cs.dropWhile isBlank

@[simp] theorem skipBlanks_nil : skipBlanks [] = [] := rfl

theorem skipBlanks_cons {c : Char} (cs : List Char) (h : isBlank c = false) :
    skipBlanks (c :: cs) = c :: cs := by simp [skipBlanks, h]

/-- The rest of a keyword, such as `null` behind its first letter. -/
def keyword : List Char → List Char → Except ManifestFault (List Char)
  | [], cs => .ok cs
  | _ :: _, [] => .error .cutShort
  | k :: ks, c :: cs => if c == k then keyword ks cs else .error .malformed

/-- The value of a digit in base 16. -/
def hexValue? (c : Char) : Option Nat :=
  if c.isDigit then some (c.toNat - 48)
  else if 'a' ≤ c ∧ c ≤ 'f' then some (c.toNat - 87)
  else if 'A' ≤ c ∧ c ≤ 'F' then some (c.toNat - 55)
  else none

/-- The number that four digits in base 16 spell. Fewer than four bytes are too short for that. -/
def unit : Reader Nat
  | a :: b :: c :: d :: rest =>
      match hexValue? a, hexValue? b, hexValue? c, hexValue? d with
      | some a, some b, some c, some d => .ok (a * 4096 + b * 256 + c * 16 + d, rest)
      | _, _, _, _ => .error .malformed
  | cs => if (String.ofList cs).utf8ByteSize < 4 then .error .cutShort else .error .malformed

theorem length_unit {cs rest : List Char} {n : Nat} (h : unit cs = .ok (n, rest)) :
    rest.length < cs.length := by
  unfold unit at h
  split at h
  · split at h
    · cases h; simp; omega
    · cases h
  · split at h <;> cases h

/-- What a letter behind a backslash stands for, the `u` apart. -/
def escaped? (c : Char) : Option Char :=
  if c == '"' || c == '\\' || c == '/' then some c
  else if c == 'b' then some '\x08'
  else if c == 'f' then some '\x0c'
  else if c == 'n' then some '\n'
  else if c == 'r' then some '\r'
  else if c == 't' then some '\t'
  else none

/-- The second half of a pair of units, behind the first. -/
def lowHalf (high : Nat) : Reader Char
  | [] => .error .cutShort
  | '\\' :: [] => .error .cutShort
  | '\\' :: 'u' :: cs => do
      let (low, rest) ← unit cs
      if 0xDC00 ≤ low ∧ low ≤ 0xDFFF then
        .ok (Char.ofNat (0x10000 + (high - 0xD800) * 1024 + (low - 0xDC00)), rest)
      else .error .malformed
  | _ => .error .malformed

/-- A character given by number, behind the `u`: one unit, or a pair of them. -/
def numbered : Reader Char := fun cs => do
  let (n, rest) ← unit cs
  if 0xDC00 ≤ n ∧ n ≤ 0xDFFF then .error .malformed
  else if 0xD800 ≤ n ∧ n ≤ 0xDBFF then lowHalf n rest
  else .ok (Char.ofNat n, rest)

/-- One character of a text, or nothing at the quotation mark that ends it. -/
def textStep : Reader (Option Char)
  | [] => .error .cutShort
  | '"' :: cs => .ok (none, cs)
  | '\\' :: 'u' :: cs => do
      let (c, rest) ← numbered cs
      .ok (some c, rest)
  | '\\' :: [] => .error .cutShort
  | '\\' :: e :: cs =>
      match escaped? e with
      | some c => .ok (some c, cs)
      | none => .error .malformed
  | c :: cs => if c.toNat < 0x20 then .error .malformed else .ok (some c, cs)

/-- The characters of a text behind its first quotation mark. Each step takes a character away,
so as many steps as there are characters suffice. -/
def textBody : Nat → Reader (List Char)
  | 0, _ => .error .cutShort
  | fuel + 1, cs => do
      match ← textStep cs with
      | (none, rest) => .ok ([], rest)
      | (some c, rest) =>
          let (more, rest) ← textBody fuel rest
          .ok (c :: more, rest)

/-- A text behind its first quotation mark. -/
def textTail : Reader String := fun cs => do
  let (chars, rest) ← textBody (cs.length + 1) cs
  .ok (String.ofList chars, rest)

/-- Passes over a text behind its first quotation mark. Pairs of units are not looked at. -/
def skipText : List Char → Except ManifestFault (List Char)
  | [] => .error .cutShort
  | '"' :: cs => .ok cs
  | '\\' :: [] => .error .cutShort
  | '\\' :: 'u' :: a :: b :: c :: d :: cs =>
      if [a, b, c, d].all fun x => (hexValue? x).isSome then skipText cs else .error .malformed
  | '\\' :: 'u' :: cs =>
      if (String.ofList cs).utf8ByteSize < 4 then .error .cutShort else .error .malformed
  | '\\' :: e :: cs => if (escaped? e).isSome then skipText cs else .error .malformed
  | c :: cs => if c.toNat < 0x20 then .error .malformed else skipText cs

end SqlBackup.Json
