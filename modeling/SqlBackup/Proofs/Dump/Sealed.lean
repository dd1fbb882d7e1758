import SqlBackup.Dump.Piece
import SqlBackup.Proofs.Dump.Closed
import SqlBackup.Proofs.Number.Digits

/-!
# Sealed texts

A sealed text can stand in front of any other: whether the whole is closed depends on the other
text alone. Names, literals and what stands between them are sealed, so statements made of them are
closed whatever rows they hold.
-/
namespace SqlBackup.Dump

open Scan Text Text.Utf8

/-- A text that changes nothing for what stands behind it. -/
def Sealed (s : String) : Prop := ∀ rest, closes none (encode s ++ rest) = closes none rest

theorem Sealed.closed {s : String} (h : Sealed s) : Closed s := by
  have hend := h []
  rwa [List.append_nil, closes] at hend

theorem sealed_empty : Sealed "" := fun rest => by rw [encode_empty, List.nil_append]

theorem Sealed.append {s t : String} (hs : Sealed s) (ht : Sealed t) : Sealed (s ++ t) := by
  intro rest
  rw [encode_append, List.append_assoc, hs, ht]

theorem sealed_intercalate {separator : String} (hseparator : Sealed separator)
    {texts : List String} (htexts : ∀ s ∈ texts, Sealed s) :
    Sealed (separator.intercalate texts) := by
  induction texts with
  | nil => exact sealed_empty
  | cons s texts ih =>
    rw [List.forall_mem_cons] at htexts
    cases texts with
    | nil => simpa using htexts.1
    | cons t texts =>
      rw [String.intercalate_cons_cons]
      exact (htexts.1.append hseparator).append (ih htexts.2)

/-- The characters that can change where a scanner in code stands, but for the star of a comment
that a slash opens. -/
def marks : List Char := ['\'', '"', '\x60', '#', '-', '/', ';']

/-- A text without such characters. -/
def IsCalm (s : String) : Prop := ∀ c ∈ s.toList, c ∉ marks

instance (s : String) : Decidable (IsCalm s) := List.decidableBAll (· ∉ marks) s.toList

theorem closes_cons_of_calm {b : UInt8} {rest : List UInt8}
    (h : b ∉ marks.map fun c => UInt8.ofNat c.toNat) :
    closes none (b :: rest) = closes none rest := by
  have hbytes : (marks.map fun c => UInt8.ofNat c.toNat) =
      [0x27, 0x22, 0x60, 0x23, 0x2D, 0x2F, 0x3B] := by decide
  rw [hbytes] at h
  simp only [List.mem_cons, List.not_mem_nil, or_false, not_or] at h
  simp [closes, isQuote, opensComment, h]

theorem IsCalm.not_mem {s : String} (h : IsCalm s) {b : UInt8} (hb : b ∈ encode s) :
    b ∉ marks.map fun c => UInt8.ofNat c.toNat := by
  rw [List.mem_map]
  rintro ⟨c, hc, rfl⟩
  have hlt : c.toNat < 128 := by
    have hall : ∀ c ∈ marks, c.toNat < 128 := by simp [marks]
    exact hall c hc
  exact h c ((mem_encode_iff hlt).mp hb) hc

theorem IsCalm.sealed {s : String} (h : IsCalm s) : Sealed s := by
  intro rest
  have hbytes : ∀ b ∈ encode s, b ∉ marks.map fun c => UInt8.ofNat c.toNat := fun _ => h.not_mem
  generalize encode s = bytes at hbytes
  induction bytes with
  | nil => rfl
  | cons b bytes ih =>
    rw [List.forall_mem_cons] at hbytes
    rw [List.cons_append, closes_cons_of_calm hbytes.1, ih hbytes.2]

/-- A dash in front of a calm text opens no comment. -/
theorem IsCalm.sealed_dash {s : String} (h : IsCalm s) (hne : s ≠ "") : Sealed ("-" ++ s) := by
  intro rest
  have hdash : encode "-" = [0x2D] := by decide
  obtain ⟨b, bytes, hb⟩ := List.exists_cons_of_ne_nil (mt encode_eq_nil.mp hne)
  have hnot : b ≠ 0x2D := by
    rintro rfl
    exact h.not_mem (hb ▸ List.mem_cons_self) (by decide)
  rw [encode_append, hdash, List.append_assoc, ← h.sealed rest, hb]
  simp [closes, isQuote, opensComment, hnot]

theorem isCalm_of_isPositional {s : String} (h : Number.IsPositional s) : IsCalm s := by
  intro c hc hmark
  have hall : ∀ c ∈ marks, ¬ (c.isDigit = true ∨ c = '.') := by simp [marks]
  exact hall c hmark (h.2 c hc)

theorem sealed_of_signed {s size : String} (hsize : Number.IsPositional size)
    (h : s = size ∨ s = "-" ++ size) : Sealed s := by
  have hcalm := isCalm_of_isPositional hsize
  rcases h with rfl | rfl
  · exact hcalm.sealed
  · exact hcalm.sealed_dash hsize.1

/-- Bytes that neither escape nor close are passed over in a quoted stretch. -/
theorem closes_some_append {q : UInt8} {bytes : List UInt8} (h : ∀ b ∈ bytes, b ≠ 0x5C ∧ b ≠ q)
    (rest : List UInt8) : closes (some q) (bytes ++ rest) = closes (some q) rest := by
  induction bytes with
  | nil => rfl
  | cons b bytes ih =>
    rw [List.forall_mem_cons] at h
    rw [List.cons_append, closes_some_cons h.1.1, if_neg (by simpa using h.1.2), ih h.2]

/-- A character is passed over if it is neither a backslash nor the quote. -/
theorem closes_some_encodeChar {q c : Char} (hq : q.toNat < 128) (hc : c ≠ '\\' ∧ c ≠ q)
    (rest : List UInt8) :
    closes (some (UInt8.ofNat q.toNat)) (String.utf8EncodeChar c ++ rest) =
      closes (some (UInt8.ofNat q.toNat)) rest :=
  closes_some_append (fun _ hb =>
    ⟨ne_of_mem_encodeChar (a := '\\') (by decide) hc.1 hb, ne_of_mem_encodeChar hq hc.2 hb⟩) rest

/-- What is written for a character of a string leaves the string open. -/
theorem closes_stringChar (c : Char) (rest : List UInt8) :
    closes (some 0x27) ((Sql.stringChar c).flatMap String.utf8EncodeChar ++ rest) =
      closes (some 0x27) rest := by
  have hescape {e : Char} (he : e.toNat < 128) :
      closes (some 0x27) (['\\', e].flatMap String.utf8EncodeChar ++ rest) =
        closes (some 0x27) rest := by
    rw [List.flatMap_cons, List.flatMap_singleton, encodeChar_of_lt he]
    exact closes_some_escape 0x27 _ rest
  unfold Sql.stringChar
  split_ifs with hnul hfeed hreturn hend hquote
  · exact hescape (by decide)
  · exact hescape (by decide)
  · exact hescape (by decide)
  · exact hescape (by decide)
  · simp only [Bool.or_eq_true, beq_iff_eq] at hquote
    rcases hquote with (rfl | rfl) | rfl <;> exact hescape (by decide)
  · simp only [Bool.or_eq_true, beq_iff_eq, not_or] at hquote
    rw [List.flatMap_singleton]
    exact closes_some_encodeChar (q := '\'') (by decide) ⟨hquote.1.1, hquote.1.2⟩ rest

/-- A string is sealed by its quotes, since what could end it is escaped. -/
theorem sealed_quoteString (s : String) : Sealed (Sql.quoteString s) := by
  intro rest
  have hbody (cs : List Char) :
      closes (some 0x27)
        ((cs.flatMap Sql.stringChar).flatMap String.utf8EncodeChar ++ 0x27 :: rest) =
          closes none rest := by
    induction cs with
    | nil => exact closes_some_cons (by decide) rest
    | cons c cs ih =>
      rw [List.flatMap_cons, List.flatMap_append, List.append_assoc, closes_stringChar, ih]
  have hquote : String.utf8EncodeChar '\'' = [0x27] := by decide
  rw [Sql.quoteString, encode_ofList, List.cons_append, List.flatMap_cons, List.flatMap_append,
    List.flatMap_singleton, hquote, List.append_assoc, List.append_assoc, List.singleton_append,
    List.singleton_append, closes_none_quote rfl, hbody s.toList]

/-- A number as it can be written in a statement: digits with a point, a sign in front and an
exponent behind it. -/
def IsNumeral (s : String) : Prop :=
  ∃ sign size exponent, s = sign ++ size ++ exponent ∧ sign ∈ ["", "+", "-"] ∧
    Number.IsPositional size ∧
    (exponent = "" ∨ ∃ e sign digits, exponent = e ++ sign ++ digits ∧ e ∈ ["e", "E"] ∧
      sign ∈ ["", "+", "-"] ∧ digits ≠ "" ∧ Number.IsDigits digits)

theorem sealed_signed {sign size : String} (hsign : sign ∈ ["", "+", "-"]) (hne : size ≠ "")
    (hsize : IsCalm size) : Sealed (sign ++ size) := by
  simp only [List.mem_cons, List.not_mem_nil, or_false] at hsign
  rcases hsign with rfl | rfl | rfl
  · exact sealed_empty.append hsize.sealed
  · exact (IsCalm.sealed (by decide)).append hsize.sealed
  · exact hsize.sealed_dash hne

theorem isPositional_of_isDigits {s : String} (hne : s ≠ "") (h : Number.IsDigits s) :
    Number.IsPositional s :=
  ⟨hne, fun c hc => .inl (h c hc)⟩

theorem IsNumeral.sealed {s : String} (h : IsNumeral s) : Sealed s := by
  obtain ⟨sign, size, exponent, rfl, hsign, hsize, hexponent⟩ := h
  have hfront := sealed_signed hsign hsize.1 (isCalm_of_isPositional hsize)
  rcases hexponent with rfl | ⟨e, sign', digits, rfl, he, hsign', hne, hdigits⟩
  · exact hfront.append sealed_empty
  · have he' : Sealed e := by
      simp only [List.mem_cons, List.not_mem_nil, or_false] at he
      rcases he with rfl | rfl <;> exact IsCalm.sealed (by decide)
    have hback := sealed_signed hsign' hne
      (isCalm_of_isPositional (isPositional_of_isDigits hne hdigits))
    rw [@String.append_assoc e]
    exact hfront.append (he'.append hback)

/-- A value whose exact numbers are numerals. -/
def Encodable : Value → Prop
  | .decimal s => IsNumeral s
  | _ => True

theorem isCalm_upper (bytes : List UInt8) : IsCalm (Hex.upper bytes) := by
  intro c hc
  have hdigit : ∀ n < 16, Hex.digit 'A' n ∉ marks := by decide
  rw [Hex.upper, String.toList_ofList, List.mem_flatMap] at hc
  obtain ⟨b, -, hc⟩ := hc
  have hb := b.toNat_lt
  simp only [Hex.ofByte, List.mem_cons, List.not_mem_nil, or_false] at hc
  rcases hc with rfl | rfl
  · exact hdigit _ (by omega)
  · exact hdigit _ (by omega)

theorem sealed_quoteBytes (bytes : List UInt8) : Sealed (Sql.quoteBytes bytes) := by
  unfold Sql.quoteBytes
  split
  · have hempty : Sql.quoteString "" = "''" := by decide
    exact hempty ▸ sealed_quoteString ""
  · exact (IsCalm.sealed (by decide)).append (isCalm_upper bytes).sealed

theorem sealed_bytesLiteral (bytes : List UInt8) : Sealed (Value.bytesLiteral bytes) := by
  unfold Value.bytesLiteral
  split
  · exact sealed_quoteBytes bytes
  · split
    · exact sealed_quoteString _
    · exact sealed_quoteBytes bytes

/-- The literals of all values are sealed. -/
theorem sealed_literal {value : Value} (h : Encodable value) : Sealed value.literal := by
  have hnull : Sealed "NULL" := IsCalm.sealed (by decide)
  cases value with
  | null => exact hnull
  | bool b => cases b <;> exact IsCalm.sealed (by decide)
  | int i =>
    obtain ⟨size, hsize, hi⟩ := Number.toString_int i
    exact sealed_of_signed hsize hi
  | uint n => exact (isCalm_of_isPositional (Number.isPositional_toString n)).sealed
  | float x =>
    rw [Value.literal]
    split
    · next hfinite =>
      obtain ⟨size, hsize, hx⟩ := Number.Binary64.text_of_isFinite hfinite
      exact sealed_of_signed hsize hx
    · exact hnull
  | decimal s => exact IsNumeral.sealed h
  | text s => exact sealed_bytesLiteral _
  | bytes b => exact sealed_bytesLiteral b
  | date d => exact sealed_quoteString _
  | timestamp d t => exact sealed_quoteString _

theorem sealed_rowLiteral {row : List Value} (h : ∀ value ∈ row, Encodable value) :
    Sealed (Value.rowLiteral row) := by
  have hvalues : ∀ s ∈ row.map Value.literal, Sealed s := by
    rw [List.forall_mem_map]
    exact fun value hvalue => sealed_literal (h value hvalue)
  exact ((IsCalm.sealed (by decide)).append
    (sealed_intercalate (IsCalm.sealed (by decide)) hvalues)).append (IsCalm.sealed (by decide))

end SqlBackup.Dump
