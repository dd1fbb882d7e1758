import Mathlib
import SqlBackup.Text.Utf8

/-!
# Encoded text

Bytes that spell a text can be cut wherever a text stands between them: what is left on both sides
spells a text again. ASCII bytes stand for themselves and occur nowhere else.
-/
namespace SqlBackup.Text.Utf8

theorem encode_eq (s : String) : encode s = s.toList.flatMap String.utf8EncodeChar := by
  have h : s.toByteArray = s.toList.utf8Encode := by simp
  simp only [encode, String.toUTF8_eq_toByteArray, h, List.utf8Encode, List.data_toByteArray]

@[simp] theorem encode_empty : encode "" = [] := by simp [encode_eq]

@[simp] theorem encode_append (s t : String) : encode (s ++ t) = encode s ++ encode t := by
  simp [encode_eq]

theorem encode_ofList (cs : List Char) :
    encode (String.ofList cs) = cs.flatMap String.utf8EncodeChar := by simp [encode_eq]

theorem encode_cons (c : Char) (cs : List Char) : encode (String.ofList (c :: cs)) =
    String.utf8EncodeChar c ++ encode (String.ofList cs) := by
  rw [encode_ofList, encode_ofList, List.flatMap_cons]

theorem toByteArray_encode (s : String) : (encode s).toByteArray = s.toByteArray := by
  apply ByteArray.ext
  simp [encode]

@[simp] theorem decode?_encode (s : String) : decode? (encode s) = some s := by
  have h : (encode s).toByteArray.IsValidUTF8 := by
    rw [toByteArray_encode]
    exact s.isValidUTF8
  rw [decode?, String.fromUTF8?, dif_pos h, Option.some_inj]
  apply String.toByteArray_inj.mp
  exact toByteArray_encode s

@[simp] theorem decode?_nil : decode? [] = some "" := decode?_encode ""

theorem decode?_eq_some_iff {bytes : List UInt8} {s : String} :
    decode? bytes = some s ↔ bytes = encode s := by
  constructor
  · intro h
    simp only [decode?, String.fromUTF8?] at h
    split at h
    · have same := congrArg String.toByteArray (Option.some.inj h)
      change bytes.toByteArray = s.toByteArray at same
      rwa [← toByteArray_encode, List.toByteArray_inj] at same
    · cases h
  · rintro rfl
    exact decode?_encode s

theorem encode_injective {s t : String} (h : encode s = encode t) : s = t := by
  have := decode?_encode s
  rw [h, decode?_encode] at this
  exact (Option.some.inj this).symm

@[simp] theorem encode_eq_nil {s : String} : encode s = [] ↔ s = "" :=
  ⟨fun h => encode_injective (h.trans encode_empty.symm), fun h => by simp [h]⟩

theorem exists_encode_of_isValidUTF8 {bytes : List UInt8} (h : bytes.toByteArray.IsValidUTF8) :
    ∃ s, bytes = encode s := by
  refine ⟨String.ofByteArray bytes.toByteArray h, ?_⟩
  apply List.toByteArray_inj.mp
  rw [toByteArray_encode]

/-- What stands in front of a text inside of a text, and what stands behind it, are texts. -/
theorem exists_of_encode_eq {s d : String} {a b : List UInt8} (hd : d ≠ "")
    (h : encode s = a ++ encode d ++ b) : ∃ x y, a = encode x ∧ b = encode y := by
  have hs : s.toByteArray = a.toByteArray ++ d.toByteArray ++ b.toByteArray := by
    rw [← toByteArray_encode, h, List.toByteArray_append, List.toByteArray_append,
      toByteArray_encode]
  let p : String.Pos.Raw := ⟨a.length⟩
  let q : String.Pos.Raw := ⟨a.length + d.toByteArray.size⟩
  have hsize : s.toByteArray.size = a.length + d.toByteArray.size + b.length := by simp [hs]
  have hcut : s.toByteArray.extract p.byteIdx q.byteIdx = d.toByteArray := by
    apply ByteArray.ext
    apply Array.ext'
    simp [hs, p, q]
  have hvalid := (String.Pos.Raw.isValidUTF8_extract_iff (s := s) p q
    (by simp [String.Pos.Raw.le_iff, p, q])
    (by simp [String.Pos.Raw.le_iff, q, ← String.size_toByteArray, hsize])).mp
      (by rw [hcut]; exact d.isValidUTF8)
  have hne : p ≠ q := by
    intro he
    have hz : d.toByteArray.size = 0 := by
      have := congrArg String.Pos.Raw.byteIdx he
      simp only [p, q] at this
      omega
    exact hd (by simpa [String.size_toByteArray] using hz)
  obtain ⟨hp, hq⟩ := hvalid.resolve_left hne
  have hleft := hp.isValidUTF8_extract_zero
  have hright := hq.isValidUTF8_extract_utf8ByteSize
  have hfront : a.toByteArray.IsValidUTF8 := by
    convert hleft using 1
    apply ByteArray.ext
    apply Array.ext'
    simp [hs, p]
  have hbehind : b.toByteArray.IsValidUTF8 := by
    convert hright using 1
    rw [← String.size_toByteArray, hsize, hs]
    exact (ByteArray.extract_append_eq_right (by simp [q]) (by simp)).symm
  obtain ⟨x, hx⟩ := exists_encode_of_isValidUTF8 hfront
  obtain ⟨y, hy⟩ := exists_encode_of_isValidUTF8 hbehind
  exact ⟨x, y, hx, hy⟩

/-- An ASCII character is one byte. -/
theorem encodeChar_of_lt {c : Char} (h : c.toNat < 128) :
    String.utf8EncodeChar c = [UInt8.ofNat c.toNat] := by
  have hv : c.val.toNat ≤ 0x7f := Nat.le_of_lt_succ h
  simp only [String.utf8EncodeChar, if_pos hv]
  rfl

/-- All bytes of a character beyond ASCII are beyond ASCII. -/
theorem le_of_mem_encodeChar {c : Char} (h : 128 ≤ c.toNat) {b : UInt8}
    (hb : b ∈ String.utf8EncodeChar c) : 128 ≤ b.toNat := by
  have hv : ¬ c.val.toNat ≤ 0x7f := Nat.not_le_of_lt h
  simp only [String.utf8EncodeChar, if_neg hv] at hb
  split_ifs at hb <;> simp only [List.mem_cons, List.not_mem_nil, or_false] at hb
  · rcases hb with rfl | rfl <;> simp only [UInt8.toNat_ofNat'] <;> omega
  · rcases hb with rfl | rfl | rfl <;> simp only [UInt8.toNat_ofNat'] <;> omega
  · rcases hb with rfl | rfl | rfl | rfl <;> simp only [UInt8.toNat_ofNat'] <;> omega

/-- An ASCII byte of a text is a character of it. -/
theorem mem_encode_iff {c : Char} (h : c.toNat < 128) {s : String} :
    UInt8.ofNat c.toNat ∈ encode s ↔ c ∈ s.toList := by
  rw [encode_eq, List.mem_flatMap]
  constructor
  · rintro ⟨x, hx, hc⟩
    by_cases hlt : x.toNat < 128
    · rw [encodeChar_of_lt hlt, List.mem_singleton] at hc
      have hn := congrArg UInt8.toNat hc
      simp only [UInt8.toNat_ofNat'] at hn
      have he : c = x := by
        rw [← Char.ofNat_toNat c, ← Char.ofNat_toNat x]
        congr 1
        omega
      exact he ▸ hx
    · have hle := le_of_mem_encodeChar (Nat.not_lt.mp hlt) hc
      simp only [UInt8.toNat_ofNat'] at hle
      omega
  · intro hc
    exact ⟨c, hc, by rw [encodeChar_of_lt h]; exact List.mem_singleton_self _⟩

/-- An ASCII byte that is not the character occurs nowhere in it. -/
theorem ne_of_mem_encodeChar {a c : Char} (ha : a.toNat < 128) (hne : c ≠ a) {b : UInt8}
    (hb : b ∈ String.utf8EncodeChar c) : b ≠ UInt8.ofNat a.toNat := by
  rintro rfl
  have hbytes : String.utf8EncodeChar c = encode (String.ofList [c]) := by
    rw [encode_ofList, List.flatMap_singleton]
  rw [hbytes, mem_encode_iff ha] at hb
  simp [Ne.symm hne] at hb

/-- Bytes that spell a text. -/
def IsText (bytes : List UInt8) : Prop := ∃ s, bytes = encode s

theorem isText_encode (s : String) : IsText (encode s) := ⟨s, rfl⟩

theorem isText_nil : IsText [] := ⟨"", encode_empty.symm⟩

theorem IsText.append {a b : List UInt8} (ha : IsText a) (hb : IsText b) : IsText (a ++ b) := by
  obtain ⟨s, rfl⟩ := ha
  obtain ⟨t, rfl⟩ := hb
  exact ⟨s ++ t, (encode_append s t).symm⟩

/-- An ASCII byte is the text of one character. -/
theorem exists_encode_of_lt {b : UInt8} (h : b < 0x80) : ∃ s, s ≠ "" ∧ encode s = [b] := by
  have hlt : b.toNat < 128 := h
  have hvalid : b.toNat.isValidChar := .inl (by omega)
  have hc : (Char.ofNat b.toNat).toNat = b.toNat := by
    rw [Char.ofNat, dif_pos hvalid]
    rfl
  refine ⟨String.ofList [Char.ofNat b.toNat], by simp, ?_⟩
  rw [encode_ofList, List.flatMap_singleton, encodeChar_of_lt (by rw [hc]; exact hlt), hc,
    UInt8.ofNat_toNat]

theorem isText_singleton {b : UInt8} (h : b < 0x80) : IsText [b] := by
  obtain ⟨s, -, hs⟩ := exists_encode_of_lt h
  exact ⟨s, hs.symm⟩

/-- A text can be cut around any text in it. -/
theorem IsText.cut {a b : List UInt8} {d : String} (h : IsText (a ++ encode d ++ b))
    (hd : d ≠ "") : IsText a ∧ IsText b := by
  obtain ⟨s, hs⟩ := h
  obtain ⟨x, y, rfl, rfl⟩ := exists_of_encode_eq hd hs.symm
  exact ⟨⟨x, rfl⟩, ⟨y, rfl⟩⟩

theorem IsText.cut_ascii {a b : List UInt8} {c : UInt8} (h : IsText (a ++ c :: b))
    (hc : c < 0x80) : IsText a ∧ IsText b := by
  obtain ⟨d, hd, hs⟩ := exists_encode_of_lt hc
  exact IsText.cut (d := d) (by simpa [hs] using h) hd

theorem exists_map_encode {pieces : List (List UInt8)} (h : ∀ p ∈ pieces, IsText p) :
    ∃ texts : List String, texts.map encode = pieces := by
  induction pieces with
  | nil => exact ⟨[], rfl⟩
  | cons p pieces ih =>
    rw [List.forall_mem_cons] at h
    obtain ⟨text, rfl⟩ := h.1
    obtain ⟨texts, rfl⟩ := ih h.2
    exact ⟨text :: texts, rfl⟩

end SqlBackup.Text.Utf8
