import Mathlib
import SqlBackup.Proofs.Text.Encoding
import SqlBackup.Text.Blank

/-!
# Blanks around a text

Dropping the ASCII blanks in front of some bytes, as a scanner does, and trimming the text that is
left comes to the same as trimming the whole text. Words have no blank.
-/
namespace SqlBackup.Text

theorem isBlank_of_isAsciiBlankChar {c : Char} (h : isAsciiBlankChar c = true) :
    isBlank c = true := by
  simp only [isAsciiBlankChar, Bool.or_eq_true, beq_iff_eq] at h
  rcases h with (((rfl | rfl) | rfl) | rfl) | rfl <;> decide

/-- The character of an ASCII blank byte is one, and no other character starts with such a byte. -/
theorem isAsciiBlank_head_encodeChar (c : Char) :
    ∃ b tail, String.utf8EncodeChar c = b :: tail ∧ isAsciiBlank b = isAsciiBlankChar c ∧
      (isAsciiBlankChar c = true → tail = []) := by
  by_cases hlt : c.toNat < 128
  · refine ⟨_, [], Utf8.encodeChar_of_lt hlt, ?_, fun _ => rfl⟩
    have hc : isAsciiBlankChar c = (c.toNat == 32 || c.toNat == 9 || c.toNat == 10 ||
        c.toNat == 12 || c.toNat == 13) := by
      simp [isAsciiBlankChar, ← Char.toNat_inj, Bool.or_assoc, beq_eq_decide]
    rw [hc, isAsciiBlank]
    generalize c.toNat = n at hlt
    decide +revert
  · have hle : 128 ≤ c.toNat := Nat.not_lt.mp hlt
    obtain ⟨b, tail, hbytes⟩ := List.exists_cons_of_ne_nil (@String.utf8EncodeChar_ne_nil c)
    have hb : 128 ≤ b.toNat := Utf8.le_of_mem_encodeChar hle (hbytes ▸ List.mem_cons_self)
    have hbyte : isAsciiBlank b = false := by
      rw [Bool.eq_false_iff]
      intro hblank
      simp only [isAsciiBlank, Bool.or_eq_true, beq_iff_eq] at hblank
      rcases hblank with (((rfl | rfl) | rfl) | rfl) | rfl <;> simp at hb
    have hchar : isAsciiBlankChar c = false := by
      rw [Bool.eq_false_iff]
      intro hblank
      simp only [isAsciiBlankChar, Bool.or_eq_true, beq_iff_eq] at hblank
      rcases hblank with (((rfl | rfl) | rfl) | rfl) | rfl <;> simp at hle
    exact ⟨b, tail, hbytes, by rw [hbyte, hchar], by simp [hchar]⟩

/-- A text without blanks has no ASCII blank among its bytes. -/
theorem isAsciiBlank_of_mem_encode {cs : List Char} (h : ∀ c ∈ cs, isBlank c = false) :
    ∀ b ∈ Utf8.encode (String.ofList cs), isAsciiBlank b = false := by
  have hno (c : Char) (hlt : c.toNat < 128) (hblank : isBlank c = true) :
      UInt8.ofNat c.toNat ∉ Utf8.encode (String.ofList cs) := by
    rw [Utf8.mem_encode_iff hlt, String.toList_ofList]
    intro hmem
    rw [h c hmem] at hblank
    cases hblank
  intro b hb
  rw [Bool.eq_false_iff]
  intro hblank
  simp only [isAsciiBlank, Bool.or_eq_true, beq_iff_eq] at hblank
  rcases hblank with (((rfl | rfl) | rfl) | rfl) | rfl
  · exact hno ' ' (by decide) (by decide) hb
  · exact hno '\t' (by decide) (by decide) hb
  · exact hno '\n' (by decide) (by decide) hb
  · exact hno '\x0c' (by decide) (by decide) hb
  · exact hno '\r' (by decide) (by decide) hb

/-- Dropping ASCII blanks in front is the same on bytes and on characters. -/
theorem dropWhile_encode (cs : List Char) :
    (Utf8.encode (String.ofList cs)).dropWhile isAsciiBlank =
      Utf8.encode (String.ofList (cs.dropWhile isAsciiBlankChar)) := by
  induction cs with
  | nil => simp
  | cons c cs ih =>
    obtain ⟨b, tail, hc, hb, htail⟩ := isAsciiBlank_head_encodeChar c
    rw [Utf8.encode_ofList] at ih ⊢
    rw [List.flatMap_cons, hc, List.cons_append]
    by_cases h : isAsciiBlankChar c = true
    · rw [List.dropWhile_cons_of_pos (by rw [hb, h]), htail h, List.nil_append, ih,
        List.dropWhile_cons_of_pos h]
    · rw [List.dropWhile_cons_of_neg (by rw [hb]; exact h), List.dropWhile_cons_of_neg h,
        Utf8.encode_ofList, List.flatMap_cons, hc, List.cons_append]

theorem trimStartChars_dropWhile (cs : List Char) :
    trimStartChars (cs.dropWhile isAsciiBlankChar) = trimStartChars cs := by
  induction cs with
  | nil => rfl
  | cons c cs ih =>
    by_cases h : isAsciiBlankChar c = true
    · rw [List.dropWhile_cons_of_pos h, ih, trimStartChars, trimStartChars,
        List.dropWhile_cons_of_pos (isBlank_of_isAsciiBlankChar h)]
    · rw [List.dropWhile_cons_of_neg h]

/-- Blanks in front of a text are trimmed. -/
theorem trimChars_append_of_blank {blanks : List Char} (h : ∀ c ∈ blanks, isBlank c = true)
    (cs : List Char) : trimChars (blanks ++ cs) = trimChars cs := by
  rw [trimChars, trimChars, trimStartChars, trimStartChars, List.dropWhile_append_of_pos h]

theorem trimEndChars_concat {cs : List Char} {c : Char} (h : isBlank c = true) :
    trimEndChars (cs ++ [c]) = trimEndChars cs := by
  rw [trimEndChars, trimEndChars, List.reverse_concat, List.dropWhile_cons_of_pos h]

/-- A blank behind a text is trimmed. -/
theorem trimChars_concat {cs : List Char} {c : Char} (h : isBlank c = true) :
    trimChars (cs ++ [c]) = trimChars cs := by
  rw [trimChars, trimChars, trimStartChars, List.dropWhile_append]
  split
  · next hall =>
    rw [List.isEmpty_iff] at hall
    rw [List.dropWhile_cons_of_pos h, trimStartChars, hall]
    rfl
  · exact trimEndChars_concat h

theorem wordsFrom_spec {word cs w : List Char} (hword : ∀ c ∈ word, isBlank c = false)
    (h : w ∈ wordsFrom word cs) : w ≠ [] ∧ ∀ c ∈ w, isBlank c = false := by
  induction cs generalizing word with
  | nil =>
    simp only [wordsFrom, List.isEmpty_iff] at h
    split at h
    · simp at h
    · next hne =>
      rw [List.mem_singleton] at h
      subst h
      exact ⟨by simpa using hne, by simpa using hword⟩
  | cons c cs ih =>
    simp only [wordsFrom, List.isEmpty_iff] at h
    split at h
    · split at h
      · exact ih (by simp) h
      · next hne =>
        rcases List.mem_cons.mp h with rfl | h
        · exact ⟨by simpa using hne, by simpa using hword⟩
        · exact ih (by simp) h
    · next hc => exact ih (by simpa [hc] using hword) h

/-- A word is not empty and has no blank. -/
theorem words_spec {cs w : List Char} (h : w ∈ words cs) : w ≠ [] ∧ ∀ c ∈ w, isBlank c = false :=
  wordsFrom_spec (by simp) h

theorem words_append_of_blank {blanks : List Char} (h : ∀ c ∈ blanks, isBlank c = true)
    (cs : List Char) : words (blanks ++ cs) = words cs := by
  induction blanks with
  | nil => rfl
  | cons c blanks ih =>
    rw [List.forall_mem_cons] at h
    rw [← ih h.2]
    simp [words, wordsFrom, h.1]

theorem wordsFrom_append {word : List Char} (h : ∀ c ∈ word, isBlank c = false)
    (read cs : List Char) : wordsFrom read (word ++ cs) = wordsFrom (word.reverse ++ read) cs := by
  induction word generalizing read with
  | nil => rfl
  | cons c word ih =>
    rw [List.forall_mem_cons] at h
    simp [wordsFrom, h.1, ih h.2]

/-- The first word ends at the first blank, or with the text. -/
theorem head?_words {blanks word cs : List Char} (hblanks : ∀ c ∈ blanks, isBlank c = true)
    (hne : word ≠ []) (hword : ∀ c ∈ word, isBlank c = false)
    (hcs : ∀ c, cs.head? = some c → isBlank c = true) :
    (words (blanks ++ word ++ cs)).head? = some word := by
  rw [List.append_assoc, words_append_of_blank hblanks, words, wordsFrom_append hword]
  cases cs with
  | nil => simp [wordsFrom, hne]
  | cons c cs => simp [wordsFrom, hne, hcs c rfl]

end SqlBackup.Text
