import SqlBackup.Proofs.Text.Encoding
import SqlBackup.Value.Literal

/-!
# Reading literals back

A server reads a literal of bytes as hexadecimal digits behind `0x`, two for each byte, or as a
string in single quotes with escapes. The literals of text and of bytes, read in this way, are the
bytes that they were written from, whichever of the two forms was chosen.
-/
namespace SqlBackup

namespace Sql

open Text Text.Utf8

/-! ### The rules of reading -/

/-- The number that a hexadecimal digit stands for. -/
def digitValue? (b : UInt8) : Option Nat :=
  if 0x30 ≤ b && b ≤ 0x39 then some (b.toNat - 0x30)
  else if 0x41 ≤ b && b ≤ 0x46 then some (b.toNat - 0x41 + 10)
  else if 0x61 ≤ b && b ≤ 0x66 then some (b.toNat - 0x61 + 10)
  else none

/-- The bytes that pairs of digits stand for. -/
def readPairs? : List UInt8 → Option (List UInt8)
  | [] => some []
  | [_] => none
  | high :: low :: digits =>
      match digitValue? high, digitValue? low with
      | some high, some low => (readPairs? digits).map (UInt8.ofNat (16 * high + low) :: ·)
      | _, _ => none

/-- What a backslash and this byte stand for. -/
def escaped? (b : UInt8) : Option UInt8 :=
  if b == 0x30 then some 0x00
  else if b == 0x6E then some 0x0A
  else if b == 0x72 then some 0x0D
  else if b == 0x5A then some 0x1A
  else if b == 0x5C || b == 0x27 || b == 0x22 then some b
  else none

/-- The bytes of a string, read from behind the quote that opens it. The quote that closes it is
the last byte. -/
def readString? : List UInt8 → Option (List UInt8)
  | [] => none
  | b :: rest =>
      if b == 0x5C then
        match rest with
        | [] => none
        | c :: rest =>
            match escaped? c with
            | some b => (readString? rest).map (b :: ·)
            | none => none
      else if b == 0x27 then if rest.isEmpty then some [] else none
      else (readString? rest).map (b :: ·)

/-- The bytes that a literal stands for, if it is one of these two forms. -/
def readLiteral? : List UInt8 → Option (List UInt8)
  | [] => none
  | b :: rest =>
      if b == 0x27 then readString? rest
      else if b == 0x30 && rest.head? == some 0x78 && !rest.tail.isEmpty then readPairs? rest.tail
      else none

/-! ### Digits -/

theorem digitValue?_digit {n : Nat} (h : n < 16) :
    digitValue? (UInt8.ofNat (Hex.digit 'A' n).toNat) = some n := by
  have hall : ∀ n < 16, digitValue? (UInt8.ofNat (Hex.digit 'A' n).toNat) = some n := by decide
  exact hall n h

theorem encodeChar_digit {n : Nat} (h : n < 16) :
    String.utf8EncodeChar (Hex.digit 'A' n) = [UInt8.ofNat (Hex.digit 'A' n).toNat] := by
  have hall : ∀ n < 16, (Hex.digit 'A' n).toNat < 128 := by decide
  exact encodeChar_of_lt (hall n h)

/-- A byte is its high half times 16 and its low half. -/
theorem ofNat_halves (b : UInt8) : UInt8.ofNat (16 * (b.toNat / 16) + b.toNat % 16) = b := by
  rw [Nat.div_add_mod, UInt8.ofNat_toNat]

theorem readPairs?_upper (bytes : List UInt8) :
    readPairs? (encode (Hex.upper bytes)) = some bytes := by
  rw [Hex.upper, encode_ofList]
  induction bytes with
  | nil => rfl
  | cons b bytes ih =>
    have hhigh : b.toNat / 16 < 16 := by
      have := b.toNat_lt
      omega
    have hlow : b.toNat % 16 < 16 := Nat.mod_lt _ (by decide)
    have hpair : (Hex.ofByte 'A' b).flatMap String.utf8EncodeChar =
        [UInt8.ofNat (Hex.digit 'A' (b.toNat / 16)).toNat,
          UInt8.ofNat (Hex.digit 'A' (b.toNat % 16)).toNat] := by
      rw [Hex.ofByte, List.flatMap_cons, List.flatMap_singleton, encodeChar_digit hhigh,
        encodeChar_digit hlow, List.singleton_append]
    rw [List.flatMap_cons, List.flatMap_append, hpair, List.cons_append, List.cons_append,
      List.nil_append]
    simp only [readPairs?, digitValue?_digit hhigh, digitValue?_digit hlow, ih, Option.map_some,
      ofNat_halves]

theorem readLiteral?_quoteBytes (bytes : List UInt8) :
    readLiteral? (encode (quoteBytes bytes)) = some bytes := by
  rw [quoteBytes]
  split
  · next hempty =>
    rw [List.isEmpty_iff.mp hempty]
    decide
  · next hne =>
    have hmark : encode "0x" = [0x30, 0x78] := by decide
    have hdigits : (encode (Hex.upper bytes)).isEmpty = false := by
      rw [List.isEmpty_eq_false_iff]
      intro hnil
      have hread := readPairs?_upper bytes
      rw [hnil, readPairs?, Option.some_inj] at hread
      exact hne (by rw [← hread]; rfl)
    rw [encode_append, hmark]
    simp [readLiteral?, hdigits, readPairs?_upper]

/-! ### Strings -/

theorem readString?_escape {b c : UInt8} (h : escaped? c = some b) (rest : List UInt8) :
    readString? (0x5C :: c :: rest) = (readString? rest).map (b :: ·) := by
  rw [readString?.eq_def]
  simp only [BEq.rfl, ↓reduceIte, h]

/-- Bytes that neither escape nor close stand for themselves. -/
theorem readString?_append {bytes : List UInt8} (h : ∀ b ∈ bytes, b ≠ 0x5C ∧ b ≠ 0x27)
    (rest : List UInt8) :
    readString? (bytes ++ rest) = (readString? rest).map (bytes ++ ·) := by
  induction bytes with
  | nil => simp
  | cons b bytes ih =>
    rw [List.forall_mem_cons] at h
    rw [List.cons_append, readString?.eq_def]
    simp only [beq_eq_false_iff_ne.mpr h.1.1, beq_eq_false_iff_ne.mpr h.1.2, Bool.false_eq_true,
      ↓reduceIte, ih h.2, Option.map_map]
    rfl

/-- What is written for a character is read as the bytes of the character. -/
theorem readString?_stringChar (c : Char) (rest : List UInt8) :
    readString? ((stringChar c).flatMap String.utf8EncodeChar ++ rest) =
      (readString? rest).map (String.utf8EncodeChar c ++ ·) := by
  have hescape {c e : Char} (hc : c.toNat < 128) (he : e.toNat < 128)
      (h : escaped? (UInt8.ofNat e.toNat) = some (UInt8.ofNat c.toNat)) :
      readString? (['\\', e].flatMap String.utf8EncodeChar ++ rest) =
        (readString? rest).map (String.utf8EncodeChar c ++ ·) := by
    rw [List.flatMap_cons, List.flatMap_singleton, encodeChar_of_lt he, encodeChar_of_lt hc]
    exact readString?_escape h rest
  unfold stringChar
  split_ifs with hnul hfeed hreturn hend hquote
  · rw [eq_of_beq hnul]
    exact hescape (by decide) (by decide) (by decide)
  · rw [eq_of_beq hfeed]
    exact hescape (by decide) (by decide) (by decide)
  · rw [eq_of_beq hreturn]
    exact hescape (by decide) (by decide) (by decide)
  · rw [eq_of_beq hend]
    exact hescape (by decide) (by decide) (by decide)
  · simp only [Bool.or_eq_true, beq_iff_eq] at hquote
    rcases hquote with (rfl | rfl) | rfl <;> exact hescape (by decide) (by decide) (by decide)
  · simp only [Bool.or_eq_true, beq_iff_eq, not_or] at hquote
    rw [List.flatMap_singleton]
    exact readString?_append (fun b hb =>
      ⟨ne_of_mem_encodeChar (a := '\\') (by decide) hquote.1.1 hb,
        ne_of_mem_encodeChar (a := '\'') (by decide) hquote.1.2 hb⟩) rest

theorem readLiteral?_quoteString (s : String) :
    readLiteral? (encode (quoteString s)) = some (encode s) := by
  have hbody (cs : List Char) :
      readString? ((cs.flatMap stringChar).flatMap String.utf8EncodeChar ++ [0x27]) =
        some (cs.flatMap String.utf8EncodeChar) := by
    induction cs with
    | nil => rfl
    | cons c cs ih =>
      rw [List.flatMap_cons, List.flatMap_append, List.append_assoc, readString?_stringChar, ih,
        Option.map_some, List.flatMap_cons]
  have hquote : String.utf8EncodeChar '\'' = [0x27] := by decide
  rw [quoteString, encode_ofList, List.cons_append, List.flatMap_cons, List.flatMap_append,
    List.flatMap_singleton, hquote, List.singleton_append, readLiteral?, if_pos BEq.rfl, hbody,
    encode_eq]

end Sql

namespace Value

open Text.Utf8

/-- Whatever form bytes are written in, they are read back. -/
theorem readLiteral?_bytesLiteral (bytes : List UInt8) :
    Sql.readLiteral? (encode (bytesLiteral bytes)) = some bytes := by
  unfold bytesLiteral
  split
  · exact Sql.readLiteral?_quoteBytes bytes
  · split
    · next s hs =>
      rw [decode?_eq_some_iff.mp hs]
      exact Sql.readLiteral?_quoteString s
    · exact Sql.readLiteral?_quoteBytes bytes

end Value

end SqlBackup
