import SqlBackup.Proofs.Scan.Ahead

/-!
# Closed texts

A text is closed if a scanner that has read it stands in code again, has met no comment and has not
ended a statement. So a semicolon behind a closed text ends exactly this text.
-/
namespace SqlBackup.Dump

open Scan Text Text.Utf8

/-- Whether a comment opens with this byte of code. -/
def opensComment (b : UInt8) (bytes : List UInt8) : Bool :=
  b == 0x23 || (b == 0x2D && bytes.head? == some 0x2D) || (b == 0x2F && bytes.head? == some 0x2A)

/-- Whether some bytes close all quotes, and have no semicolon and no comment outside of them.
`quote` is the quote of the stretch that they start in. -/
def closes : Option UInt8 → List UInt8 → Bool
  | none, [] => true
  | some _, [] => false
  | some q, b :: bytes =>
      if b == 0x5C then
        match bytes with
        | [] => false
        | _ :: bytes => closes (some q) bytes
      else closes (if b == q then none else some q) bytes
  | none, b :: bytes =>
      if isQuote b then closes (some b) bytes
      else b != 0x3B && !opensComment b bytes && closes none bytes

theorem closes_some_cons {q b : UInt8} (h : b ≠ 0x5C) (bytes : List UInt8) :
    closes (some q) (b :: bytes) = closes (if b == q then none else some q) bytes := by
  rw [closes.eq_def]
  simp only [beq_eq_false_iff_ne.mpr h, Bool.false_eq_true, ↓reduceIte]

theorem closes_some_escape (q c : UInt8) (bytes : List UInt8) :
    closes (some q) (0x5C :: c :: bytes) = closes (some q) bytes := by
  rw [closes.eq_def]
  rfl

theorem closes_none_quote {b : UInt8} (h : isQuote b = true) (bytes : List UInt8) :
    closes none (b :: bytes) = closes (some b) bytes := by
  rw [closes, if_pos h]

/-- A text closes all quotes and has no semicolon and no comment outside of them. -/
def Closed (s : String) : Prop := closes none (encode s) = true

instance (s : String) : Decidable (Closed s) := inferInstanceAs (Decidable (_ = true))

theorem plainBytes_semicolon : PlainBytes semicolon.bytes := by
  constructor <;> simp [semicolon, isAsciiBlank, isQuote]

variable {settings : Settings} {lineStart : Bool} {results : List Result}

/-- No directive stands behind blanks in front of these bytes. -/
def Plain (settings : Settings) (bytes : List UInt8) : Prop :=
  ∀ blanks back, bytes = blanks ++ back → (∀ b ∈ blanks, isAsciiBlank b = true) →
    directive? (Chunk.cut (settings.room + 1) back).bytes = none

theorem Plain.tail {b : UInt8} {bytes : List UInt8} (h : Plain settings (b :: bytes))
    (hb : isAsciiBlank b = true) : Plain settings bytes := by
  intro blanks back hbytes hblanks
  exact h (b :: blanks) back (by rw [hbytes, List.cons_append])
    (List.forall_mem_cons.mpr ⟨hb, hblanks⟩)

theorem length_dropWhile_le_append (a b : List UInt8) :
    (a.dropWhile isAsciiBlank).length ≤ ((a ++ b).dropWhile isAsciiBlank).length := by
  rw [List.dropWhile_append]
  split
  · next h => simp [List.isEmpty_iff.mp h]
  · simp

theorem Plain.undirected {mode : Mode} {marks : List Mark} {bytes : List UInt8}
    (h : (∀ m ∈ marks, isAsciiBlank m.byte = true) → Plain settings bytes) :
    Undirected settings lineStart mode marks bytes :=
  fun _ _ hblank => h hblank [] bytes rfl (by simp)

theorem plain_concat {m : Mark} {marks : List Mark} {bytes : List UInt8}
    (h : (∀ m ∈ marks, isAsciiBlank m.byte = true) → Plain settings (m.byte :: bytes))
    (hblank : ∀ m' ∈ marks ++ [m], isAsciiBlank m'.byte = true) : Plain settings bytes := by
  rw [List.forall_mem_append, List.forall_mem_singleton] at hblank
  exact (h hblank.1).tail hblank.2

theorem roomy_of_append {marks : List Mark} {text : List UInt8}
    (h : ((marks.map Mark.byte ++ text).dropWhile isAsciiBlank).length < settings.limit) :
    Roomy settings marks results :=
  .inr (lt_of_le_of_lt (length_dropWhile_le_append _ _) h)

theorem append_concat_byte (marks : List Mark) (m : Mark) (text : List UInt8) :
    (marks ++ [m]).map Mark.byte ++ text = marks.map Mark.byte ++ m.byte :: text := by simp

/-- A byte that opens no comment in a text opens none with the semicolon behind it. -/
theorem apart_of_opensComment {b : UInt8} {text : List UInt8} (h : opensComment b text = false)
    (marks : List Mark) (rest : List UInt8) :
    Apart (marks ++ [⟨b, true⟩]) (text ++ 0x3B :: rest) := by
  rw [opensComment, Bool.or_eq_false_iff, Bool.or_eq_false_iff] at h
  obtain ⟨⟨-, hdash⟩, hstar⟩ := h
  simp only [Bool.and_eq_false_iff, beq_eq_false_iff_ne] at hdash hstar
  have hhead (c : UInt8) (hc : c ≠ 0x3B) (hnot : text.head? ≠ some c) :
      (text ++ 0x3B :: rest).head? ≠ some c := by
    cases text with
    | nil => simpa using Ne.symm hc
    | cons d text => simpa using hnot
  intro m hm
  rw [List.getLast?_concat, Option.some_inj] at hm
  subst hm
  constructor
  · rintro ⟨rfl, hopen⟩
    exact hhead 0x2D (by decide) (by simpa using hdash) hopen
  · rintro ⟨rfl, hopen⟩
    exact hhead 0x2A (by decide) (by simpa using hstar) hopen

/-- A scanner reads a closed text up to the semicolon behind it. -/
theorem ahead_of_closes {quote : Option UInt8} {text rest : List UInt8} {marks : List Mark}
    (h : Ahead settings semicolon lineStart (modeOf quote) marks (text ++ 0x3B :: rest) results)
    (hcloses : closes quote text = true) (hquote : ∀ q, quote = some q → isQuote q = true)
    (hclosed : quote = none → Scan.Closed marks)
    (hapart : quote = none → Apart marks (text ++ 0x3B :: rest))
    (hplain : (∀ m ∈ marks, isAsciiBlank m.byte = true) → Plain settings (text ++ 0x3B :: rest))
    (hroom : ((marks.map Mark.byte ++ text).dropWhile isAsciiBlank).length < settings.limit) :
    ∃ lineStart marks', marks'.map Mark.byte = marks.map Mark.byte ++ text ∧
      Ahead settings semicolon lineStart .code marks' (0x3B :: rest) results ∧
      Scan.Closed marks' ∧ Apart marks' (0x3B :: rest) ∧
      Undirected settings lineStart .code marks' (0x3B :: rest) := by
  fun_induction closes quote text generalizing lineStart marks with
  | case1 =>
    exact ⟨lineStart, marks, by simp, h, hclosed rfl, hapart rfl, Plain.undirected hplain⟩
  | case2 => cases hcloses
  | case3 => cases hcloses
  | case4 q b hb c text ih =>
    have hfirst := h.read (undirected_of_ne (by simp [modeOf])) (roomy_of_append hroom)
      fun s hmode hs => State.reads_quoted hs hmode
    rw [if_pos hb] at hfirst
    rw [← append_concat_byte marks ⟨b, false⟩] at hroom ⊢
    have hsecond := hfirst.read (undirected_of_ne (by simp)) (roomy_of_append hroom)
      fun s hmode hs => State.reads_escaped hs hmode
    rw [← append_concat_byte _ ⟨c, false⟩] at hroom ⊢
    exact ih hsecond hcloses hquote (by simp) (by simp) (plain_concat (plain_concat hplain)) hroom
  | case5 q b text hb ih =>
    have hnext := h.read (undirected_of_ne (by simp [modeOf])) (roomy_of_append hroom)
      fun s hmode hs => State.reads_quoted hs hmode
    rw [if_neg hb] at hnext
    rw [← append_concat_byte marks ⟨b, false⟩] at hroom ⊢
    by_cases hclose : (b == q) = true
    · have hb' := isQuote_of_beq hquote hclose
      simp only [hclose, ↓reduceIte] at hnext ih hcloses
      exact ih hnext hcloses (by simp) (fun _ => closed_concat (.inl hb'))
        (fun _ => apart_concat (ne_opening_of_isQuote hb')) (plain_concat hplain) hroom
    · simp only [hclose] at hnext ih hcloses
      exact ih hnext hcloses hquote (by simp) (by simp) (plain_concat hplain) hroom
  | case6 b text hb ih =>
    have hnext := h.read (Plain.undirected hplain) (roomy_of_append hroom)
      fun s hmode hs => State.reads_quote hs hmode hb
    rw [← append_concat_byte marks ⟨b, false⟩] at hroom ⊢
    exact ih hnext hcloses (by simpa using hb) (by simp) (by simp) (plain_concat hplain) hroom
  | case7 b text hb ih =>
    rw [Bool.and_eq_true, Bool.and_eq_true, bne_iff_ne, Bool.not_eq_true'] at hcloses
    obtain ⟨⟨hsemicolon, hopens⟩, hrest⟩ := hcloses
    have hhash : (b == 0x23) = false := by
      rw [opensComment, Bool.or_eq_false_iff, Bool.or_eq_false_iff] at hopens
      exact hopens.1.1
    have hnext := h.code (Plain.undirected hplain) (roomy_of_append hroom) plainBytes_semicolon
      (hclosed rfl) (hapart rfl) (by simpa using hb) hhash
    rw [if_neg fun hsuffix => hsemicolon
      (by simpa [semicolon] using (plainBytes_semicolon.mem_of_suffix hsuffix).2)] at hnext
    rw [← append_concat_byte marks ⟨b, true⟩] at hroom ⊢
    exact ih hnext hrest (by simp) (fun _ => (hclosed rfl).concat b)
      (fun _ => apart_of_opensComment hopens marks rest) (plain_concat hplain) hroom

end SqlBackup.Dump
