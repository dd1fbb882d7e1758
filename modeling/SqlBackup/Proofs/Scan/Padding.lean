import SqlBackup.Proofs.Dump.Keeping
import SqlBackup.Proofs.Scan.Boundaries

/-!
# Blanks held in front of a text

A scanner drops the ASCII blanks in front of a text and holds all others there, until the text is
trimmed. The main statement is that a scanner that holds blanks shows what one shows that dropped
them, as long as no text is too large and no directive stands before the text: while blanks are
held, a directive is taken for text.
-/
namespace SqlBackup.Scan

open Text Text.Utf8

/-- The bytes of a delimiter are a word, as those of a semicolon and of all that directives set. -/
def Delimiter.IsWord (d : Delimiter) : Prop :=
  ∃ token : List Char, token ≠ [] ∧ (∀ c ∈ token, isBlank c = false) ∧
    d.bytes = encode (String.ofList token)

theorem isWord_semicolon : semicolon.IsWord := by
  refine ⟨[';'], by simp, List.forall_mem_singleton.mpr (by decide), ?_⟩
  rw [encode_ofList, List.flatMap_singleton, encodeChar_of_lt (by decide)]
  rfl

theorem Delimiter.IsWord.ne_nil {d : Delimiter} (h : d.IsWord) : d.bytes ≠ [] := by
  obtain ⟨token, hne, -, hbytes⟩ := h
  simpa [hbytes] using hne

theorem Delimiter.IsWord.notBlank {d : Delimiter} (h : d.IsWord) :
    ∀ b ∈ d.bytes, isAsciiBlank b = false := by
  obtain ⟨token, -, hblank, hbytes⟩ := h
  rw [hbytes]
  exact isAsciiBlank_of_mem_encode hblank

/-- Blanks in front of a text, last byte first: they end with an ASCII blank, and are not all of
that kind. -/
structure IsPad (w : List UInt8) : Prop where
  text : ∃ cs : List Char, (∀ c ∈ cs, isBlank c = true) ∧ w.reverse = encode (String.ofList cs)
  head : ∃ b, w.head? = some b ∧ isAsciiBlank b = true
  held : w.any (!isAsciiBlank ·) = true

theorem IsPad.cons {w : List UInt8} (h : IsPad w) {c : Char} (hc : isAsciiBlankChar c = true)
    (hlt : c.toNat < 128) (hb : isAsciiBlank (UInt8.ofNat c.toNat) = true) :
    IsPad (UInt8.ofNat c.toNat :: w) := by
  obtain ⟨⟨cs, hcs, hw⟩, -, hheld⟩ := h
  refine ⟨⟨cs ++ [c], ?_, ?_⟩, ⟨_, rfl, hb⟩, by simp [hheld]⟩
  · rw [List.forall_mem_append]
    exact ⟨hcs, by simpa using isBlank_of_isAsciiBlankChar hc⟩
  · rw [List.reverse_cons, hw, String.ofList_append, encode_append, encode_ofList [c],
      List.flatMap_singleton, encodeChar_of_lt hlt]

theorem IsPad.cons_blank {w : List UInt8} (h : IsPad w) {b : UInt8} (hb : isAsciiBlank b = true) :
    IsPad (b :: w) := by
  have hblank := hb
  simp only [isAsciiBlank, Bool.or_eq_true, beq_iff_eq] at hblank
  rcases hblank with (((rfl | rfl) | rfl) | rfl) | rfl
  · exact h.cons (c := ' ') (by decide) (by decide) hb
  · exact h.cons (c := '\t') (by decide) (by decide) hb
  · exact h.cons (c := '\n') (by decide) (by decide) hb
  · exact h.cons (c := '\x0c') (by decide) (by decide) hb
  · exact h.cons (c := '\r') (by decide) (by decide) hb

namespace State

variable {limit : Nat} {s t : State} {b : UInt8} {w bytes text : List UInt8} {settings : Settings}
  {lineStart : Bool}

/-! ### What is held -/

/-- Every byte leaves a text that is held without blanks in front. -/
theorem Holds.turned (h : s.Holds (codes text)) (b : UInt8) :
    ∃ text, (s.turned b).Holds (codes text) := by
  have hadded (mode : Mode) (c : UInt8) :
      Holds { (s.addition c).on s with mode } (codes (text ++ [c])) :=
    (h.codes_addition c).of_eq rfl rfl rfl
  have hback {c : UInt8} (hhead : s.pending.head? = some c) (hc : isAsciiBlank c = false)
      (mode : Mode) : ∃ text, Holds { s.unpush with mode } (codes text) := by
    obtain ⟨text', htext'⟩ := h.takeBack hhead hc
    exact ⟨text', htext'.of_eq rfl rfl rfl⟩
  have hkept (mode : Mode) : Holds { s with mode } (codes text) := h.of_eq rfl rfl rfl
  have heffect := effect.eq_def s b
  cases hmode : s.mode with
  | code =>
    simp only [hmode] at heffect
    split_ifs at heffect with hquote hhash hdash hstar
    · rw [turned_of_effect heffect]
      exact ⟨_, hadded _ b⟩
    · rw [turned_of_effect heffect]
      exact ⟨_, hkept _⟩
    · rw [Bool.and_eq_true, beq_iff_eq, beq_iff_eq] at hdash
      rw [turned_of_effect heffect]
      exact hback hdash.2 (by decide) _
    · rw [Bool.and_eq_true, beq_iff_eq, beq_iff_eq] at hstar
      rw [turned_of_effect heffect]
      exact hback hstar.2 (by decide) _
    · rw [turned_of_effect heffect]
      exact ⟨_, hadded _ b⟩
  | quoted quote =>
    simp only [hmode] at heffect
    rw [turned_of_effect heffect]
    exact ⟨_, hadded _ b⟩
  | escaped quote =>
    simp only [hmode] at heffect
    rw [turned_of_effect heffect]
    exact ⟨_, hadded _ b⟩
  | lineComment =>
    simp only [hmode] at heffect
    split_ifs at heffect
    · rw [turned_of_effect heffect]
      exact ⟨_, hadded _ b⟩
    · rw [turned_of_effect heffect]
      exact ⟨_, hkept _⟩
  | blockComment star =>
    simp only [hmode] at heffect
    split_ifs at heffect
    · rw [turned_of_effect heffect]
      exact ⟨_, hadded _ 0x20⟩
    · rw [turned_of_effect heffect]
      exact ⟨_, hkept _⟩

/-! ### One byte behind blanks -/

/-- The same state with blanks held in front of its text. -/
def padded (s : State) (w : List UInt8) : State :=
  { s with begun := true, pending := s.pending ++ w, size := s.size + w.length }

/-- Blanks that a state drops are held behind those that are held already. -/
theorem on_addition_padded (hs : s.Holds (codes text)) (hw : IsPad w) (c : UInt8) :
    ∃ w', IsPad w' ∧ ((s.padded w).addition c).on (s.padded w) = ((s.addition c).on s).padded w' := by
  have hkept : (s.padded w).addition c = .add c := addition_of_kept (.inl rfl)
  rw [hkept]
  by_cases hdropped : s.begun = false ∧ isAsciiBlank c = true
  · have hnone : s.addition c = .none := by simp [addition, hdropped]
    have hnil : s.pending = [] := by
      rw [hs.begun, Bool.not_eq_false', List.isEmpty_iff] at hdropped
      exact hdropped.1
    refine ⟨c :: w, hw.cons_blank hdropped.2, ?_⟩
    rw [hnone]
    simp [Effect.on, padded, hnil, Nat.add_assoc]
  · have hadd : s.addition c = .add c := by
      apply addition_of_kept
      cases hbegun : s.begun with
      | true => exact .inl rfl
      | false => exact .inr (by simpa [hbegun] using hdropped)
    refine ⟨w, hw, ?_⟩
    rw [hadd]
    simp [Effect.on, padded, Nat.add_right_comm]

/-- The last byte of the text opens a comment together with the next one, whether blanks are held in
front of it or not. -/
theorem head?_padded (hw : IsPad w) {c : UInt8} (hc : isAsciiBlank c = false) :
    ((s.padded w).pending.head? == some c) = (s.pending.head? == some c) := by
  cases hpending : s.pending with
  | cons a pending => simp [padded, hpending]
  | nil =>
    obtain ⟨b, hhead, hb⟩ := hw.head
    have hne : b ≠ c := by
      rintro rfl
      rw [hc] at hb
      cases hb
    simp [padded, hpending, hhead, hne]

/-- A byte does the same behind blanks: it adds the same byte, takes back one that stands behind
them, or leaves the text alone. -/
inductive SameEffect (s : State) (w : List UInt8) (b : UInt8) : Prop where
  | adds (c : UInt8) (mode : Mode) : s.effect b = (s.addition c, mode) →
      (s.padded w).effect b = ((s.padded w).addition c, mode) → SameEffect s w b
  | keeps (mode : Mode) : s.effect b = (.none, mode) → (s.padded w).effect b = (.none, mode) →
      SameEffect s w b
  | takesBack (mode : Mode) : s.pending ≠ [] → s.effect b = (.takeBack, mode) →
      (s.padded w).effect b = (.takeBack, mode) → SameEffect s w b

theorem sameEffect (s : State) (hw : IsPad w) (b : UInt8) : SameEffect s w b := by
  have hmode' : (s.padded w).mode = s.mode := rfl
  have heffect := effect.eq_def s b
  have heffect' := effect.eq_def (s.padded w) b
  rw [hmode'] at heffect'
  cases hmode : s.mode with
  | code =>
    simp only [hmode, head?_padded hw (c := 0x2D) (by decide),
      head?_padded hw (c := 0x2F) (by decide)] at heffect heffect'
    split_ifs at heffect heffect' with hquote hhash hdash hstar
    · exact .adds b _ heffect heffect'
    · exact .keeps _ heffect heffect'
    · exact .takesBack _ (by rintro hnil; simp [hnil] at hdash) heffect heffect'
    · exact .takesBack _ (by rintro hnil; simp [hnil] at hstar) heffect heffect'
    · exact .adds b _ heffect heffect'
  | quoted quote =>
    simp only [hmode] at heffect heffect'
    exact .adds b _ heffect heffect'
  | escaped quote =>
    simp only [hmode] at heffect heffect'
    exact .adds b _ heffect heffect'
  | lineComment =>
    simp only [hmode] at heffect heffect'
    split_ifs at heffect heffect'
    · exact .adds b _ heffect heffect'
    · exact .keeps _ heffect heffect'
  | blockComment star =>
    simp only [hmode] at heffect heffect'
    split_ifs at heffect heffect'
    · exact .adds 0x20 _ heffect heffect'
    · exact .keeps _ heffect heffect'

theorem turned_padded (hs : s.Holds (codes text)) (hw : IsPad w) (b : UInt8) :
    ∃ w', IsPad w' ∧ (s.padded w).turned b = (s.turned b).padded w' := by
  cases sameEffect s hw b with
  | adds c mode heffect heffect' =>
    obtain ⟨w', hw', hsame⟩ := on_addition_padded hs hw c
    refine ⟨w', hw', ?_⟩
    rw [turned_of_effect heffect, turned_of_effect heffect', hsame]
    rfl
  | keeps mode heffect heffect' =>
    refine ⟨w, hw, ?_⟩
    rw [turned_of_effect heffect, turned_of_effect heffect']
    rfl
  | takesBack mode hne heffect heffect' =>
    refine ⟨w, hw, ?_⟩
    obtain ⟨a, pending, hpending⟩ := List.exists_cons_of_ne_nil hne
    have hsize : s.size + w.length - 1 = s.size - 1 + w.length := by
      rw [hs.size, hpending, List.length_cons]
      omega
    rw [turned_of_effect heffect, turned_of_effect heffect']
    simp [Effect.on, unpush, padded, hpending, hw.held, hsize]

/-- A text that has room behind blanks has room. -/
theorem exceeds_padded (hw : IsPad w)
    (h : ((s.padded w).effect b).1.exceeds limit (s.padded w).size = false) :
    (s.effect b).1.exceeds limit s.size = false := by
  cases sameEffect s hw b with
  | adds c mode heffect heffect' =>
    have hkept : (s.padded w).addition c = .add c := addition_of_kept (.inl rfl)
    rw [heffect', hkept] at h
    rw [heffect]
    have hroom : s.size + 1 ≤ limit := by
      have hfits : ¬ limit < s.size + w.length + 1 := of_decide_eq_false h
      omega
    exact Effect.exceeds_of_room hroom _
  | keeps mode heffect => rw [heffect]; rfl
  | takesBack mode _ heffect => rw [heffect]; rfl

/-- No word ends across blanks. -/
theorem atDelimiter_padded (hs : s.Holds (codes text)) (hw : IsPad w) (hd : s.delimiter.IsWord) :
    (s.padded w).atDelimiter = (s.begun && s.atDelimiter) := by
  have hsize : s.size + w.length = (s.pending ++ w).length := by rw [hs.size, List.length_append]
  have hpadded : (s.padded w).atDelimiter =
      s.delimiter.bytes.reverse.isPrefixOf (s.pending ++ w) := by
    rw [← Delimiter.ends_eq, ← hsize]
    rfl
  have hown : s.atDelimiter = s.delimiter.bytes.reverse.isPrefixOf s.pending := by
    rw [← Delimiter.ends_eq, ← hs.size]
    rfl
  rw [hpadded, hown, hs.begun, Bool.eq_iff_iff, Bool.and_eq_true, List.isPrefixOf_iff_prefix,
    List.isPrefixOf_iff_prefix, Bool.not_eq_true', List.isEmpty_eq_false_iff]
  constructor
  · intro hprefix
    have hshort : s.delimiter.bytes.reverse <+: s.pending := by
      refine List.prefix_of_prefix_length_le hprefix (List.prefix_append _ _) ?_
      by_contra hlong
      -- The first of the blanks would be a byte of the delimiter.
      obtain ⟨c, hhead, hc⟩ := hw.head
      obtain ⟨w', rfl⟩ := List.head?_eq_some_iff.mp hhead
      have hone : s.pending ++ [c] <+: s.delimiter.bytes.reverse := by
        refine List.prefix_of_prefix_length_le ⟨w', by simp⟩ hprefix ?_
        rw [List.length_append, List.length_singleton]
        omega
      have hmem := hone.subset (List.mem_append_right _ (List.mem_singleton_self c))
      rw [hd.notBlank c (List.mem_reverse.mp hmem)] at hc
      cases hc
    refine ⟨?_, hshort⟩
    intro hnil
    rw [hnil, List.prefix_nil, List.reverse_eq_nil_iff] at hshort
    exact hd.ne_nil hshort
  · exact fun h => h.2.trans (List.prefix_append _ _)

theorem completes_padded (hs : s.Holds (codes text)) (hw : IsPad w) (hd : s.delimiter.IsWord)
    (b : UInt8) : (s.padded w).completes b = s.completes b := by
  obtain ⟨w', hw', hturned⟩ := turned_padded hs hw b
  obtain ⟨text', htext'⟩ := hs.turned b
  have hd' : (s.turned b).delimiter.IsWord := by
    have hsame : (s.turned b).delimiter = s.delimiter := delimiter_moved s b
    rwa [hsame]
  have hmode : ((s.turned b).padded w').mode = (s.turned b).mode := rfl
  have hbegun : ((s.turned b).padded w').begun = true := rfl
  have hmode' : (s.padded w).mode = s.mode := rfl
  rw [completes, completes, hturned, hmode, hmode', hbegun, Bool.and_true,
    atDelimiter_padded htext' hw' hd', ← Bool.and_assoc]

/-! ### The end of a text behind blanks -/

/-- Blanks in front of a text make no difference to what it spells without them. -/
theorem decode?_append_pad (hw : IsPad w) (raw : List UInt8) :
    (decode? (w.reverse ++ raw)).map trim = (decode? raw).map trim := by
  obtain ⟨⟨cs, hcs, hbytes⟩, ⟨b, hb, -⟩, -⟩ := hw
  rw [hbytes]
  cases hraw : decode? raw with
  | some text =>
    rw [decode?_eq_some_iff] at hraw
    rw [hraw, ← encode_append, decode?_encode, Option.map_some, Option.map_some, trim, trim,
      String.toList_append, String.toList_ofList, trimChars_append_of_blank hcs]
  | none =>
    rw [Option.map_none, Option.map_eq_none_iff, ← Option.not_isSome_iff_eq_none,
      Option.isSome_iff_exists]
    rintro ⟨text, htext⟩
    have hne : String.ofList cs ≠ "" := by
      intro hempty
      rw [hempty, encode_empty, List.reverse_eq_nil_iff] at hbytes
      simp [hbytes] at hb
    rw [decode?_eq_some_iff] at htext
    obtain ⟨-, behind, rfl⟩ := IsText.cut (a := []) ⟨text, htext⟩ hne
    rw [decode?_encode] at hraw
    cases hraw

/-- A statement is made of a text in the same way behind blanks. -/
theorem take_padded (hw : IsPad w) {atBoundary : Bool}
    (h : atBoundary = true → s.delimiter.size ≤ s.pending.length) :
    (s.padded w).take atBoundary = s.take atBoundary := by
  have hraw : (if atBoundary then (s.padded w).pending.drop (s.padded w).delimiter.size
      else (s.padded w).pending).reverse =
        w.reverse ++ (if atBoundary then s.pending.drop s.delimiter.size else s.pending).reverse := by
    cases atBoundary with
    | true =>
      show ((s.pending ++ w).drop s.delimiter.size).reverse = _
      rw [List.drop_append_of_le_length (h rfl), List.reverse_append]
      rfl
    | false => exact List.reverse_append
  have hsame := decode?_append_pad hw
    (if atBoundary then s.pending.drop s.delimiter.size else s.pending).reverse
  rw [← hraw] at hsame
  unfold take
  dsimp only
  split
  · next hnone =>
    rw [hnone, Option.map_none, eq_comm, Option.map_eq_none_iff] at hsame
    rw [hsame]
    rfl
  · next text hsome =>
    rw [hsome, Option.map_some, eq_comm, Option.map_eq_some_iff] at hsame
    obtain ⟨text', hsome', htrim⟩ := hsame
    rw [hsome']
    dsimp only
    rw [htrim]
    rfl

/-! ### Whole streams -/

/-- Whether a scanner comes to a directive before a text ends. -/
def comesToDirective (settings : Settings) (s : State) (lineStart : Bool) : List UInt8 → Bool
  | [] => false
  | b :: bytes =>
      (s.directiveAt? settings lineStart (b :: bytes)).isSome ||
        match s.step settings.limit b with
        | (t, .more) => comesToDirective settings t (b == 0x0A) bytes
        | _ => false

/-- Where no directive stands before the text, blanks that are held in front of it do not show. -/
theorem transcript_padded (hs : s.Holds (codes text)) (hw : IsPad w) (hd : s.delimiter.IsWord)
    (hno : s.comesToDirective settings lineStart bytes = false)
    (hfits : Fits ((s.padded w).transcript settings lineStart bytes)) :
    (s.padded w).transcript settings lineStart bytes = s.transcript settings lineStart bytes := by
  induction bytes generalizing s w lineStart text with
  | nil =>
    have hcode : { s.padded w with mode := .code } = padded { s with mode := .code } w := rfl
    rw [transcript_nil, transcript_nil, hcode, take_padded hw (by simp)]
  | cons b bytes ih =>
    have hheld : (s.padded w).directiveAt? settings lineStart (b :: bytes) = none := by
      simp [directiveAt?, padded]
    rw [comesToDirective, Bool.or_eq_false_iff, Option.isSome_eq_false_iff,
      Option.isNone_iff_eq_none] at hno
    obtain ⟨hnone, hrest⟩ := hno
    rw [transcript_cons hheld] at hfits ⊢
    rw [transcript_cons hnone]
    cases hexceeds : ((s.padded w).effect b).1.exceeds settings.limit (s.padded w).size with
    | true =>
      rw [step_of_exceeds hexceeds] at hfits
      exact absurd rfl (hfits _ (List.mem_singleton_self _) _ _)
    | false =>
      obtain ⟨w', hw', hturned⟩ := turned_padded hs hw b
      obtain ⟨text', htext'⟩ := hs.turned b
      have hmoved : (s.padded w).moved b = (s.moved b).padded w' := by
        rw [moved, hturned]
        rfl
      rw [step_of_fits hexceeds, completes_padded hs hw hd, hmoved] at hfits ⊢
      rw [step_of_fits (exceeds_padded hw hexceeds)] at hrest ⊢
      have hheld' : (s.moved b).Holds (codes text') := htext'.of_eq rfl rfl rfl
      cases hcompletes : s.completes b with
      | true =>
        obtain ⟨-, -, -, hends⟩ := moved_of_completes hcompletes
        have hsize : (s.moved b).delimiter.size ≤ (s.moved b).pending.length := by
          rw [atDelimiter, Delimiter.ends, Bool.and_eq_true, decide_eq_true_eq, hheld'.size] at hends
          exact hends.1
        simp only [↓reduceIte, take_padded hw' fun _ => hsize]
      | false =>
        simp only [hcompletes, Bool.false_eq_true, ↓reduceIte] at hfits hrest ⊢
        exact ih hheld' hw' (by rwa [delimiter_moved]) hrest hfits

end State

end SqlBackup.Scan
