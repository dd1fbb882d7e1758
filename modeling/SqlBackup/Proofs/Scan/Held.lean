import SqlBackup.Proofs.Scan.Lexeme
import SqlBackup.Proofs.Scan.Effect

/-!
# What a scanner holds

Between two parts of a dump a scanner holds what the reference has marked since the last delimiter,
without the blanks in front. Each byte adds a mark, or takes back the one that turned out to open a
comment. The text ends with the delimiter exactly when the marks do.
-/
namespace SqlBackup.Scan

open Text Text.Utf8

variable {marks : List Mark}

theorem dropWhile_concat_of_neg {bytes : List UInt8} {b : UInt8} (h : isAsciiBlank b = false) :
    (bytes ++ [b]).dropWhile isAsciiBlank = bytes.dropWhile isAsciiBlank ++ [b] := by
  rw [List.dropWhile_append]
  split
  · next hall =>
    rw [List.isEmpty_iff] at hall
    rw [hall, List.dropWhile_cons_of_neg (by simp [h])]
    rfl
  · rfl

/-- The delimiters that the reference is about, by their bytes. -/
structure PlainBytes (d : List UInt8) : Prop where
  ne : d ≠ []
  notBlank : ∀ b ∈ d, isAsciiBlank b = false
  notQuote : ∀ b ∈ d, isQuote b = false
  notOpening : ∀ b ∈ d, b ≠ 0x2D ∧ b ≠ 0x2F

/-- The last mark that is not code closes a quoted stretch or stands for a comment. -/
def Closed (marks : List Mark) : Prop :=
  ∃ front c, marks = front ++ codes c ∧
    ∀ m, front.getLast? = some m → isQuote m.byte = true ∨ isAsciiBlank m.byte = true

theorem closed_nil : Closed [] := ⟨[], [], rfl, by simp⟩

theorem Closed.concat (h : Closed marks) (b : UInt8) : Closed (marks ++ [⟨b, true⟩]) := by
  obtain ⟨front, c, rfl, hlast⟩ := h
  exact ⟨front, c ++ [b], by simp [codes], hlast⟩

theorem closed_concat {m : Mark} (h : isQuote m.byte = true ∨ isAsciiBlank m.byte = true) :
    Closed (marks ++ [m]) :=
  ⟨marks ++ [m], [], by simp [codes], by simpa using h⟩

theorem dropWhile_append_of_notBlank {d : List UInt8} (hne : d ≠ [])
    (hd : ∀ b ∈ d, isAsciiBlank b = false) (bytes : List UInt8) :
    (bytes ++ d).dropWhile isAsciiBlank = bytes.dropWhile isAsciiBlank ++ d := by
  rw [List.dropWhile_append]
  split
  · next hall =>
    obtain ⟨b, d', rfl⟩ := List.exists_cons_of_ne_nil hne
    have hb := hd b List.mem_cons_self
    rw [List.isEmpty_iff] at hall
    rw [List.dropWhile_cons_of_neg (by simp [hb]), hall, List.nil_append]
  · rfl

theorem suffix_dropWhile {d bytes : List UInt8} (hd : ∀ b ∈ d, isAsciiBlank b = false)
    (h : d <:+ bytes) : d <:+ bytes.dropWhile isAsciiBlank := by
  by_cases hne : d = []
  · rw [hne]
    exact List.nil_suffix
  · obtain ⟨front, rfl⟩ := h
    rw [dropWhile_append_of_notBlank hne hd]
    exact List.suffix_append _ _

theorem suffix_dropWhile_iff {d bytes : List UInt8} (hd : PlainBytes d) :
    d <:+ bytes.dropWhile isAsciiBlank ↔ d <:+ bytes :=
  ⟨fun h => h.trans (List.dropWhile_suffix _), suffix_dropWhile hd.notBlank⟩

/-- Bytes without a quote and a blank do not reach back over one. -/
theorem suffix_of_suffix_append {d front c : List UInt8}
    (hd : ∀ b ∈ d, isQuote b = false ∧ isAsciiBlank b = false)
    (hlast : ∀ b, front.getLast? = some b → isQuote b = true ∨ isAsciiBlank b = true)
    (h : d <:+ front ++ c) : d <:+ c := by
  by_cases hlength : d.length ≤ c.length
  · exact List.suffix_of_suffix_length_le h (List.suffix_append _ _) hlength
  · obtain ⟨x, rfl⟩ := List.suffix_of_suffix_length_le (List.suffix_append _ _) h
      (Nat.le_of_not_le hlength)
    have hx : x ≠ [] := by
      rintro rfl
      exact hlength (by simp)
    obtain ⟨y, hy⟩ := h
    rw [← List.append_assoc, List.append_cancel_right_eq] at hy
    have hb : front.getLast? = some (x.getLast hx) := by
      rw [← hy, List.getLast?_append_of_ne_nil _ hx, List.getLast?_eq_some_getLast hx]
    obtain ⟨hnoQuote, hnoBlank⟩ := hd _ (List.mem_append_left c (List.getLast_mem hx))
    rcases hlast _ hb with hquote | hblank
    · rw [hnoQuote] at hquote
      cases hquote
    · rw [hnoBlank] at hblank
      cases hblank

/-- No byte of a quoted stretch or of a comment takes part in a delimiter. -/
theorem suffix_map_iff {d : List UInt8} (hd : PlainBytes d) (h : Closed marks) :
    d <:+ marks.map Mark.byte ↔ codes d <:+ marks := by
  constructor
  · obtain ⟨front, c, rfl, hlast⟩ := h
    intro hsuffix
    rw [List.map_append, map_byte_codes] at hsuffix
    have hc : d <:+ c := by
      refine suffix_of_suffix_append (fun b hb => ⟨hd.notQuote b hb, hd.notBlank b hb⟩) ?_ hsuffix
      intro b hb
      rw [List.getLast?_map, Option.map_eq_some_iff] at hb
      obtain ⟨m, hm, rfl⟩ := hb
      exact hlast m hm
    exact (hc.map _).trans (List.suffix_append _ _)
  · intro hsuffix
    have := hsuffix.map Mark.byte
    rwa [map_byte_codes] at this

namespace State

/-- A scanner holds the text of these marks, without the blanks in front. -/
structure Holds (s : State) (marks : List Mark) : Prop where
  pending : s.pending.reverse = (marks.map Mark.byte).dropWhile isAsciiBlank
  size : s.size = s.pending.length
  begun : s.begun = !s.pending.isEmpty

variable {limit : Nat} {s t : State} {b : UInt8}

theorem Holds.of_eq (h : Holds s marks) (hpending : t.pending = s.pending) (hsize : t.size = s.size)
    (hbegun : t.begun = s.begun) : Holds t marks :=
  ⟨by rw [hpending, h.pending], by rw [hsize, hpending, h.size], by rw [hbegun, hpending, h.begun]⟩

theorem holds_initial (offset : Nat) (d : Delimiter) : Holds (initial offset d) [] :=
  ⟨rfl, rfl, rfl⟩

theorem holds_take (s : State) (atBoundary : Bool) : Holds (s.take atBoundary).1 [] := by
  rcases take_cases s atBoundary with h | h <;> rw [h] <;> exact ⟨rfl, rfl, rfl⟩

theorem Holds.pending_eq_nil (h : s.Holds marks) (hbegun : s.begun = false) : s.pending = [] := by
  rw [h.begun, Bool.not_eq_false', List.isEmpty_iff] at hbegun
  exact hbegun

/-- The last byte of the text is that of the last mark. -/
theorem Holds.exists_of_head? (h : Holds s marks) (hb : s.pending.head? = some b) :
    ∃ m, marks.getLast? = some m ∧ m.byte = b := by
  have hlast : ((marks.map Mark.byte).dropWhile isAsciiBlank).getLast? = some b := by
    rw [← h.pending, List.getLast?_reverse, hb]
  obtain ⟨front, hfront⟩ := List.dropWhile_suffix isAsciiBlank (l := marks.map Mark.byte)
  have hall : (marks.map Mark.byte).getLast? = some b := by
    rw [← hfront, List.getLast?_append, hlast, Option.some_or]
  rwa [List.getLast?_map, Option.map_eq_some_iff] at hall

theorem Holds.addition (h : Holds s marks) (b : UInt8) (isCode : Bool) :
    Holds ((s.addition b).on s) (marks ++ [⟨b, isCode⟩]) := by
  have hbegun := h.begun
  unfold State.addition
  split
  · next hblank =>
    rw [Bool.and_eq_true, Bool.not_eq_true'] at hblank
    have hnil := h.pending_eq_nil hblank.1
    refine ⟨?_, h.size, h.begun⟩
    have hpending := h.pending
    rw [hnil, List.reverse_nil] at hpending
    rw [Effect.on, hnil, List.map_append, List.dropWhile_append, ← hpending]
    simp [hblank.2]
  · next hkept =>
    refine ⟨?_, by simp [Effect.on, h.size], by simp [Effect.on]⟩
    rw [Effect.on, List.reverse_cons, List.map_append, h.pending, List.map_singleton]
    by_cases hb : isAsciiBlank b = true
    · have hne : s.pending ≠ [] := by simpa [hbegun, hb] using hkept
      have hdrop : (marks.map Mark.byte).dropWhile isAsciiBlank ≠ [] := by
        rw [← h.pending]
        simpa using hne
      rw [List.dropWhile_append, if_neg (by simpa using hdrop)]
    · rw [dropWhile_concat_of_neg (by simpa using hb)]

/-- A byte that is no blank stands at the end of the text. -/
theorem Holds.pending_concat {isCode : Bool} (h : Holds s (marks ++ [⟨b, isCode⟩]))
    (hb : isAsciiBlank b = false) :
    s.pending = b :: ((marks.map Mark.byte).dropWhile isAsciiBlank).reverse := by
  have hpending := h.pending
  rwa [List.map_append, List.map_singleton, dropWhile_concat_of_neg hb, List.reverse_eq_iff,
    List.reverse_concat] at hpending

/-- Taking back the last byte, which must not be a blank, undoes a push. -/
theorem Holds.unpush {isCode : Bool} (h : Holds s (marks ++ [⟨b, isCode⟩]))
    (hb : isAsciiBlank b = false) : Holds s.unpush marks := by
  have hpending := h.pending_concat hb
  have hsize := h.size
  refine ⟨?_, ?_, ?_⟩
  · simp [State.unpush, hpending]
  · simp [State.unpush, hpending, hsize]
  · have hempty : ((marks.map Mark.byte).dropWhile isAsciiBlank).isEmpty =
        (marks.map Mark.byte).all isAsciiBlank := by
      rw [Bool.eq_iff_iff, List.isEmpty_iff, List.dropWhile_eq_nil_iff, List.all_eq_true]
    simp only [State.unpush, hpending, List.tail_cons, List.any_reverse, List.any_dropWhile,
      List.isEmpty_reverse, hempty]

/-- Taking a text out yields the statement in it. -/
theorem take_of_isText {atBoundary : Bool} {piece : List UInt8} (h : IsText piece)
    (hraw : (if atBoundary then s.pending.drop s.delimiter.size else s.pending).reverse =
      piece.dropWhile isAsciiBlank) :
    ∃ statement?, (s.take atBoundary).2 = .ok statement? ∧
      statement?.map (·.sql) = sqlOf piece := by
  have hsql := sqlOf_dropWhile h
  have hdecode : ∃ text, decode? (piece.dropWhile isAsciiBlank) = some text := by
    obtain ⟨text, rfl⟩ := h
    have hbytes := dropWhile_encode text.toList
    rw [String.ofList_toList] at hbytes
    exact ⟨_, by rw [hbytes, decode?_encode]⟩
  obtain ⟨text, htext⟩ := hdecode
  rw [sqlOf, htext, Option.bind_some] at hsql
  rw [← hsql]
  unfold take
  simp only [hraw, htext]
  split
  · exact ⟨none, rfl, rfl⟩
  · exact ⟨some _, rfl, rfl⟩

/-- At a delimiter the text in front of it is taken out. -/
theorem Holds.take_of_delimiter {front : List Mark}
    (h : Holds s (front ++ codes s.delimiter.bytes)) (hd : PlainBytes s.delimiter.bytes)
    (htext : IsText (front.map Mark.byte)) :
    ∃ statement?, (s.take true).2 = .ok statement? ∧
      statement?.map (·.sql) = sqlOf (front.map Mark.byte) := by
  have hpending := h.pending
  rw [List.map_append, map_byte_codes, dropWhile_append_of_notBlank hd.ne hd.notBlank,
    List.reverse_eq_iff, List.reverse_append] at hpending
  have hsize : s.delimiter.size = s.delimiter.bytes.reverse.length := by
    rw [s.delimiter.size_eq, List.length_reverse]
  refine take_of_isText htext ?_
  rw [if_pos rfl, hpending, hsize, List.drop_left, List.reverse_reverse]

/-- A byte completes no delimiter and leaves the scanner in this mode, holding these marks. -/
def Keeps (limit : Nat) (s : State) (b : UInt8) (mode : Mode) (marks : List Mark) : Prop :=
  (s.step limit b).2 = .more ∧ (s.step limit b).1.mode = mode ∧ Holds (s.step limit b).1 marks

/-- The same, unless the text becomes too large by the byte. -/
def Reads (limit : Nat) (s : State) (b : UInt8) (mode : Mode) (marks : List Mark) : Prop :=
  (s.step limit b).2 = .tooLarge ∨ Keeps limit s b mode marks

theorem reads_of_effect {effect : Effect} {mode : Mode} (heffect : s.effect b = (effect, mode))
    (hmode : s.mode ≠ .code ∨ mode ≠ .code) (h : Holds (effect.on s) marks) :
    Reads limit s b mode marks := by
  have hturned := turned_of_effect heffect
  have hcompletes : s.completes b = false := completes_of_ne (by rwa [hturned])
  have hmoved : (s.moved b).mode = mode := by rw [moved, hturned]
  have hheld : Holds (s.moved b) marks := by
    rw [moved, hturned]
    exact h.of_eq rfl rfl rfl
  rw [Reads, Keeps, step_eq]
  split
  · exact .inl rfl
  · exact .inr ⟨by simp [hcompletes], hmoved, hheld⟩

/-- A byte that adds nothing to the text is not refused. -/
theorem keeps_of_effect {effect : Effect} {mode : Mode} (heffect : s.effect b = (effect, mode))
    (hmode : mode ≠ .code) (hfits : effect.exceeds limit s.size = false)
    (h : Holds (effect.on s) marks) : Keeps limit s b mode marks := by
  have hreads : Reads limit s b mode marks := reads_of_effect heffect (.inr hmode) h
  refine hreads.resolve_left fun hlarge => ?_
  rw [step_of_fits (by rwa [heffect])] at hlarge
  dsimp only at hlarge
  split at hlarge <;> cases hlarge

theorem reads_quoted {q : UInt8} (h : Holds s marks) (hmode : s.mode = .quoted q) :
    Reads limit s b
      (if b == 0x5C then .escaped q else if b == q then .code else .quoted q)
      (marks ++ [⟨b, false⟩]) :=
  reads_of_effect (by simp only [effect, hmode]) (.inl (by simp [hmode])) (h.addition b false)

theorem reads_escaped {q : UInt8} (h : Holds s marks) (hmode : s.mode = .escaped q) :
    Reads limit s b (.quoted q) (marks ++ [⟨b, false⟩]) :=
  reads_of_effect (by simp only [effect, hmode]) (.inl (by simp [hmode])) (h.addition b false)

theorem reads_quote (h : Holds s marks) (hmode : s.mode = .code) (hb : isQuote b = true) :
    Reads limit s b (.quoted b) (marks ++ [⟨b, false⟩]) := by
  rw [isQuote] at hb
  exact reads_of_effect (by simp only [effect, hmode, hb, ↓reduceIte]) (.inr (by simp))
    (h.addition b false)

theorem keeps_hash (h : Holds s marks) (hmode : s.mode = .code) :
    Keeps limit s 0x23 .lineComment marks := by
  have heffect : s.effect 0x23 = (.none, .lineComment) := by simp [effect, hmode]
  exact keeps_of_effect heffect (by simp) rfl h

/-- The second dash takes the first one back. -/
theorem keeps_dash (h : Holds s (marks ++ [⟨0x2D, true⟩])) (hmode : s.mode = .code) :
    Keeps limit s 0x2D .lineComment marks := by
  have hhead : s.pending.head? = some 0x2D := by rw [h.pending_concat rfl, List.head?_cons]
  have heffect : s.effect 0x2D = (.takeBack, .lineComment) := by simp [effect, hmode, hhead]
  exact keeps_of_effect heffect (by simp) rfl (h.unpush rfl)

/-- The star takes the slash back. -/
theorem keeps_star (h : Holds s (marks ++ [⟨0x2F, true⟩])) (hmode : s.mode = .code) :
    Keeps limit s 0x2A (.blockComment false) marks := by
  have hhead : s.pending.head? = some 0x2F := by rw [h.pending_concat rfl, List.head?_cons]
  have heffect : s.effect 0x2A = (.takeBack, .blockComment false) := by
    simp [effect, hmode, hhead]
  exact keeps_of_effect heffect (by simp) rfl (h.unpush rfl)

theorem keeps_lineComment (h : Holds s marks) (hmode : s.mode = .lineComment) (hb : b ≠ 0x0A) :
    Keeps limit s b .lineComment marks := by
  have heffect : s.effect b = (.none, .lineComment) := by simp [effect, hmode, hb]
  exact keeps_of_effect heffect (by simp) rfl h

theorem reads_lineFeed (h : Holds s marks) (hmode : s.mode = .lineComment) :
    Reads limit s 0x0A .code (marks ++ [⟨0x0A, false⟩]) :=
  reads_of_effect (by simp [effect, hmode]) (.inl (by simp [hmode])) (h.addition 0x0A false)

theorem keeps_blockComment {star : Bool} (h : Holds s marks) (hmode : s.mode = .blockComment star)
    (hb : (star && b == 0x2F) = false) :
    Keeps limit s b (.blockComment (b == 0x2A)) marks := by
  have heffect : s.effect b = (.none, .blockComment (b == 0x2A)) := by
    simp only [effect, hmode, hb, Bool.false_eq_true, ↓reduceIte]
  exact keeps_of_effect heffect (by simp) rfl h

theorem reads_slash (h : Holds s marks) (hmode : s.mode = .blockComment true) :
    Reads limit s 0x2F .code (marks ++ [⟨0x20, false⟩]) :=
  reads_of_effect (by simp [effect, hmode]) (.inl (by simp [hmode])) (h.addition 0x20 false)

theorem Holds.atDelimiter_iff (h : Holds s marks) :
    s.atDelimiter = true ↔ s.delimiter.bytes <:+ s.pending.reverse := by
  rw [atDelimiter, h.size, Delimiter.ends_eq, List.isPrefixOf_iff_prefix, ← List.reverse_suffix,
    List.reverse_reverse]

theorem atDelimiter_iff {d : List UInt8} (hd : PlainBytes d) (h : Holds s marks)
    (hclosed : Closed marks) (hdelimiter : s.delimiter.bytes = d) :
    (s.begun && s.atDelimiter) = true ↔ codes d <:+ marks := by
  have hpending : d <:+ s.pending.reverse ↔ codes d <:+ marks := by
    rw [h.pending, suffix_dropWhile_iff hd, suffix_map_iff hd hclosed]
  rw [Bool.and_eq_true, h.atDelimiter_iff, hdelimiter, hpending, and_iff_right_iff_imp, h.begun]
  intro hsuffix
  have hlength := (hpending.mpr hsuffix).length_le
  have hne := List.length_pos_iff.mpr hd.ne
  cases hp : s.pending with
  | nil =>
    rw [hp, List.reverse_nil, List.length_nil] at hlength
    omega
  | cons b pending => rfl

/-- A byte that is code by what stands before it is held, and ends a statement if the marks end
with the delimiter then. -/
theorem step_of_code {d : List UInt8} (hd : PlainBytes d) (h : Holds s marks)
    (hclosed : Closed marks) (hdelimiter : s.delimiter.bytes = d) (hmode : s.mode = .code)
    (hquote : isQuote b = false) (hhash : (b == 0x23) = false)
    (hdash : (b == 0x2D && s.pending.head? == some 0x2D) = false)
    (hstar : (b == 0x2A && s.pending.head? == some 0x2F) = false) :
    (s.step limit b).2 = .tooLarge ∨
      (s.step limit b).1.mode = .code ∧ Holds (s.step limit b).1 (marks ++ [⟨b, true⟩]) ∧
        (s.step limit b).2 = if codes d <:+ marks ++ [⟨b, true⟩] then .boundary else .more := by
  rw [isQuote] at hquote
  have heffect : s.effect b = (s.addition b, .code) := by
    simp only [effect, hmode, hquote, hhash, hdash, hstar, Bool.false_eq_true, ↓reduceIte]
  have hturned := turned_of_effect heffect
  have hmoved : Holds (s.moved b) (marks ++ [⟨b, true⟩]) := by
    rw [moved, hturned]
    exact (h.addition b true).of_eq rfl rfl rfl
  have hmode' : (s.moved b).mode = .code := by rw [moved, hturned]
  have hiff := atDelimiter_iff hd hmoved (hclosed.concat b) (by rw [delimiter_moved, hdelimiter])
  have hcompletes : s.completes b = true ↔ codes d <:+ marks ++ [⟨b, true⟩] := by
    have hcode : s.completes b = ((s.moved b).begun && (s.moved b).atDelimiter) := by
      simp only [completes, hmode, hturned, beq_self_eq_true, Bool.true_and]
      rw [moved, hturned]
      rfl
    rw [hcode, hiff]
  rw [step_eq]
  split
  · exact .inl rfl
  · exact .inr ⟨hmode', hmoved, by simp only [hcompletes]⟩

end State

end SqlBackup.Scan
