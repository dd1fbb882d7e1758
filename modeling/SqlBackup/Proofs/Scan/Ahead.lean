import SqlBackup.Proofs.Scan.Directive
import SqlBackup.Proofs.Scan.Held

/-!
# Reading on from a part of a dump

What the results of a scanner tell of the bytes before it: a byte that ends no statement shows
nothing, comments are passed over, and a byte that completes the delimiter shows the statement held.
The scanner is known by its mode and by the marks that it holds.
-/
namespace SqlBackup.Scan

open Text Text.Utf8

/-- What a call shows, but for where its statement stands. -/
def Result.sql? (r : Result) : Except Fault (Option String) := r.answer.map (Option.map (·.sql))

/-- The mode of a scanner inside a stretch quoted so, or in code. -/
def modeOf : Option UInt8 → Mode
  | none => .code
  | some quote => .quoted quote

/-- These are the results of a scanner with these bytes before it, in this mode and holding these
marks. -/
def Ahead (settings : Settings) (d : Delimiter) (lineStart : Bool) (mode : Mode)
    (marks : List Mark) (bytes : List UInt8) (results : List Result) : Prop :=
  ∃ s, results = State.transcript settings s lineStart bytes ∧ s.delimiter = d ∧ s.mode = mode ∧
    s.Holds marks

/-- There is room for one more byte of text, or no text was ever too large. -/
def Roomy (settings : Settings) (marks : List Mark) (results : List Result) : Prop :=
  Fits results ∨ ((marks.map Mark.byte).dropWhile isAsciiBlank).length < settings.limit

/-- No directive stands before these bytes, if one can stand there at all. -/
def Undirected (settings : Settings) (lineStart : Bool) (mode : Mode) (marks : List Mark)
    (bytes : List UInt8) : Prop :=
  lineStart = true → mode = .code → (∀ m ∈ marks, isAsciiBlank m.byte = true) →
    directive? (Chunk.cut (settings.room + 1) bytes).bytes = none

variable {settings : Settings} {d : Delimiter} {lineStart : Bool} {mode mode' : Mode}
  {marks marks' : List Mark} {b : UInt8} {bytes : List UInt8} {results : List Result}

theorem NoDirective.undirected (h : NoDirective settings lineStart (b :: bytes)) :
    Undirected settings lineStart mode marks (b :: bytes) := fun hstart _ _ => h.1 hstart

theorem undirected_of_ne (h : mode ≠ .code) : Undirected settings lineStart mode marks bytes :=
  fun _ hcode _ => (h hcode).elim

theorem Undirected.directiveAt? {s : State} (h : Undirected settings lineStart mode marks bytes)
    (hmode : s.mode = mode) (hs : s.Holds marks) :
    s.directiveAt? settings lineStart bytes = none := by
  rw [State.directiveAt?]
  split
  · next hstart =>
    simp only [Bool.and_eq_true, beq_iff_eq, Bool.not_eq_true'] at hstart
    refine h hstart.1.1 (hmode ▸ hstart.1.2) fun m hm => ?_
    have hbegun := hs.begun
    rw [hstart.2, eq_comm, Bool.not_eq_false', List.isEmpty_iff] at hbegun
    have hpending := hs.pending
    rw [hbegun, List.reverse_nil, eq_comm, List.dropWhile_eq_nil_iff] at hpending
    exact hpending _ (List.mem_map_of_mem hm)
  · rfl

/-- A text that has room for a byte does not become too large by it. -/
theorem Roomy.step_ne_tooLarge {s t : State} (hs : s.Holds marks)
    (hroom : Roomy settings marks results) (hstep : s.step settings.limit b = (t, .tooLarge))
    (hresults : results = [t.shown (.error (.statementTooLarge settings.limit t.position))]) :
    False := by
  rcases hroom with hfits | hroom
  · subst hresults
    exact hfits _ (List.mem_singleton_self _) settings.limit t.position rfl
  · have hlarge := (State.step_grows hstep).2 rfl
    rw [← hs.pending, List.length_reverse, ← hs.size] at hroom
    omega

theorem ahead_of_keeps {s : State} (hkeeps : s.Keeps settings.limit b mode marks)
    (hdirective : s.directiveAt? settings lineStart (b :: bytes) = none) :
    Ahead settings s.delimiter (b == 0x0A) mode marks bytes
      (s.transcript settings lineStart (b :: bytes)) := by
  rw [State.Keeps] at hkeeps
  rw [State.transcript_cons hdirective]
  rcases hstep : s.step settings.limit b with ⟨t, signal⟩
  simp only [hstep] at hkeeps
  obtain ⟨rfl, hmode, ht⟩ := hkeeps
  exact ⟨t, rfl, (State.step_frame hstep).1, hmode, ht⟩

/-- Reading a byte that completes no delimiter shows nothing. -/
theorem Ahead.keep (h : Ahead settings d lineStart mode marks (b :: bytes) results)
    (hdirective : Undirected settings lineStart mode marks (b :: bytes))
    (hkeeps : ∀ s : State, s.mode = mode → s.Holds marks → s.Keeps settings.limit b mode' marks') :
    Ahead settings d (b == 0x0A) mode' marks' bytes results := by
  obtain ⟨s, rfl, rfl, hmode, hs⟩ := h
  exact ahead_of_keeps (hkeeps s hmode hs) (hdirective.directiveAt? hmode hs)

/-- The same, if the text does not become too large. -/
theorem Ahead.read (h : Ahead settings d lineStart mode marks (b :: bytes) results)
    (hdirective : Undirected settings lineStart mode marks (b :: bytes))
    (hroom : Roomy settings marks results)
    (hreads : ∀ s : State, s.mode = mode → s.Holds marks → s.Reads settings.limit b mode' marks') :
    Ahead settings d (b == 0x0A) mode' marks' bytes results := by
  obtain ⟨s, hresults, rfl, hmode, hs⟩ := h
  have hundirected := hdirective.directiveAt? hmode hs
  rcases hreads s hmode hs with hlarge | hkeeps
  · rcases hstep : s.step settings.limit b with ⟨t, signal⟩
    rw [hstep] at hlarge
    obtain rfl : signal = .tooLarge := hlarge
    rw [State.transcript_cons hundirected, hstep] at hresults
    exact (hroom.step_ne_tooLarge hs hstep hresults).elim
  · subst hresults
    exact ahead_of_keeps hkeeps hundirected

/-- A comment of a line is read up to the next line, or to the end of the dump. -/
theorem Ahead.lineComment (h : Ahead settings d lineStart .lineComment marks bytes results)
    (hroom : Roomy settings marks results) :
    (∃ line, bytes = line ++ 0x0A :: (splitLine bytes).2 ∧
        Ahead settings d true .code (marks ++ [⟨0x0A, false⟩]) (splitLine bytes).2 results) ∨
      (0x0A ∉ bytes ∧ (splitLine bytes).2 = []) ∧
        ∃ lineStart, Ahead settings d lineStart .lineComment marks [] results := by
  induction bytes generalizing lineStart with
  | nil => exact .inr ⟨⟨List.not_mem_nil, rfl⟩, lineStart, h⟩
  | cons b bytes ih =>
    have hdirective : Undirected settings lineStart .lineComment marks (b :: bytes) :=
      undirected_of_ne (by simp)
    simp only [splitLine]
    split
    · next hb =>
      rw [beq_iff_eq] at hb
      subst hb
      exact .inl ⟨[], rfl, h.read hdirective hroom fun s hmode hs => State.reads_lineFeed hs hmode⟩
    · next hb =>
      rw [beq_iff_eq] at hb
      have hnext := h.keep hdirective fun s hmode hs => State.keeps_lineComment hs hmode hb
      rcases ih hnext with ⟨line, hline, hend⟩ | ⟨⟨hnot, hnil⟩, hend⟩
      · exact .inl ⟨b :: line, congrArg (b :: ·) hline, hend⟩
      · exact .inr ⟨⟨List.not_mem_cons_of_ne_of_not_mem (Ne.symm hb) hnot, hnil⟩, hend⟩

/-- A comment in stars is read up to the first `*/`, or to the end of the dump. A star that was
read already is not part of it. -/
theorem Ahead.blockComment {star : Bool}
    (h : Ahead settings d lineStart (.blockComment star) marks bytes results)
    (hstar : (star && bytes.head? == some 0x2F) = false) (hroom : Roomy settings marks results) :
    (∃ block, bytes = block ++ 0x2F :: (splitBlock bytes).2 ∧
        Ahead settings d false .code (marks ++ [⟨0x20, false⟩]) (splitBlock bytes).2 results) ∨
      (splitBlock bytes).2 = [] ∧
        ∃ lineStart star, Ahead settings d lineStart (.blockComment star) marks [] results := by
  induction bytes generalizing lineStart star with
  | nil => exact .inr ⟨rfl, lineStart, star, h⟩
  | cons b bytes ih =>
    have hb : (star && b == 0x2F) = false := by simpa using hstar
    have hnext := h.keep (undirected_of_ne (by simp))
      fun s hmode hs => State.keeps_blockComment hs hmode hb
    simp only [splitBlock]
    split
    · next hclose =>
      obtain ⟨hstar', hbytes⟩ := exists_of_head? hclose
      rw [hstar', hbytes] at hnext
      refine .inl ⟨[b], congrArg (b :: ·) hbytes, ?_⟩
      exact hnext.read (undirected_of_ne (by simp)) hroom
        fun s hmode hs => State.reads_slash hs hmode
    · next hopen =>
      rcases ih hnext (by simpa using hopen) with ⟨block, hblock, hend⟩ | hend
      · exact .inl ⟨b :: block, congrArg (b :: ·) hblock, hend⟩
      · exact .inr hend

/-- What the reference yields of some pieces. -/
def statements (pieces : List (List UInt8)) : List (Except Fault (Option String)) :=
  (pieces.filterMap sqlOf).map fun sql => .ok (some sql)

theorem statements_cons (piece : List UInt8) (pieces : List (List UInt8)) :
    statements [piece] ++ statements pieces = statements (piece :: pieces) := by
  rw [statements, statements, statements, ← List.map_append, ← List.filterMap_append]
  rfl

/-- At the end of a dump the text that is held is the last piece. -/
theorem Ahead.finish {piece : List UInt8} (h : Ahead settings d lineStart mode marks [] results)
    (htext : IsText (marks.map Mark.byte)) (hpiece : sqlOf (marks.map Mark.byte) = sqlOf piece) :
    results.map Result.sql? = statements [piece] ++ [.ok none] := by
  obtain ⟨s, rfl, -, -, hs⟩ := h
  have hraw := hs.pending
  obtain ⟨statement?, htake, hsql⟩ :=
    @State.take_of_isText { s with mode := .code } false _ htext hraw
  rcases hstep : { s with mode := .code }.take false with ⟨t, answer⟩
  rw [hstep] at htake
  obtain rfl : answer = .ok statement? := htake
  rw [hpiece] at hsql
  rw [State.transcript_nil, hstep]
  cases statement? with
  | none => simp [statements, ← hsql, Result.sql?, State.shown, Except.map]
  | some statement => simp [statements, ← hsql, Result.sql?, State.shown, Except.map]

/-- A comment that no line feed ends, or no `*/`, leaves a blank all the same. -/
theorem Ahead.finish_comment {c : Char} (hc : isAsciiBlankChar c = true) (hlt : c.toNat < 128)
    (h : Ahead settings d lineStart mode marks [] results)
    (htext : IsText ((marks ++ [Mark.mk (UInt8.ofNat c.toNat) false]).map Mark.byte)) :
    results.map Result.sql? =
      statements [(marks ++ [Mark.mk (UInt8.ofNat c.toNat) false]).map Mark.byte] ++
        [.ok none] := by
  rw [List.map_append, List.map_singleton] at htext ⊢
  have hlt' : UInt8.ofNat c.toNat < 0x80 := by
    rw [UInt8.lt_iff_toNat_lt, UInt8.toNat_ofNat']
    exact lt_of_le_of_lt (Nat.mod_le _ _) hlt
  have htext' := (htext.cut_ascii hlt').1
  exact h.finish htext' (sqlOf_concat htext' hc hlt).symm

/-- Whether a comment opens with the last byte held and the first byte ahead. -/
def Apart (marks : List Mark) (bytes : List UInt8) : Prop :=
  ∀ m, marks.getLast? = some m →
    ¬ (m.byte = 0x2D ∧ bytes.head? = some 0x2D) ∧ ¬ (m.byte = 0x2F ∧ bytes.head? = some 0x2A)

/-- A byte of code is held. If the marks end with the delimiter then, a statement is yielded. -/
theorem Ahead.code (h : Ahead settings d lineStart .code marks (b :: bytes) results)
    (hdirective : Undirected settings lineStart .code marks (b :: bytes))
    (hroom : Roomy settings marks results) (hd : PlainBytes d.bytes) (hclosed : Closed marks)
    (hapart : Apart marks (b :: bytes)) (hquote : isQuote b = false)
    (hhash : (b == 0x23) = false) :
    if codes d.bytes <:+ marks ++ [⟨b, true⟩] then
      ∀ front, marks ++ [⟨b, true⟩] = front ++ codes d.bytes → IsText (front.map Mark.byte) →
        ∃ later, (Fits results → Fits later) ∧ Ahead settings d (b == 0x0A) .code [] bytes later ∧
          results.map Result.sql? = statements [front.map Mark.byte] ++ later.map Result.sql?
    else Ahead settings d (b == 0x0A) .code (marks ++ [⟨b, true⟩]) bytes results := by
  obtain ⟨s, hresults, hdelimiter, hmode, hs⟩ := h
  have hlook (first second : UInt8) (hm : ∀ m, marks.getLast? = some m →
      ¬ (m.byte = first ∧ (b :: bytes).head? = some second)) :
      (b == second && s.pending.head? == some first) = false := by
    rw [Bool.eq_false_iff]
    intro hopens
    rw [Bool.and_eq_true, beq_iff_eq, beq_iff_eq] at hopens
    obtain ⟨m, hlast, hbyte⟩ := hs.exists_of_head? hopens.2
    exact hm m hlast ⟨hbyte, by rw [hopens.1, List.head?_cons]⟩
  have hstep := @State.step_of_code _ settings.limit s _ _ hd hs hclosed (by rw [hdelimiter])
    hmode hquote hhash (hlook 0x2D 0x2D fun m hm => (hapart m hm).1)
    (hlook 0x2F 0x2A fun m hm => (hapart m hm).2)
  rw [State.transcript_cons (hdirective.directiveAt? hmode hs)] at hresults
  rcases hst : s.step settings.limit b with ⟨t, signal⟩
  have hframe := (State.step_frame hst).1
  simp only [hst] at hstep hresults
  rcases hstep with rfl | ⟨hmode', ht, rfl⟩
  · exact (hroom.step_ne_tooLarge hs hst hresults).elim
  split
  · next hends =>
    intro front hfront htext
    have ht' : t.Holds (front ++ codes t.delimiter.bytes) := by
      rwa [hframe, hdelimiter, ← hfront]
    obtain ⟨statement?, htake, hsql⟩ :=
      ht'.take_of_delimiter (by rwa [hframe, hdelimiter]) htext
    have hheld := State.holds_take t true
    have hmode := State.mode_take t true
    rcases hu : t.take true with ⟨u, answer⟩
    rw [hu] at htake hheld hmode
    obtain rfl : answer = .ok statement? := htake
    have hdelimiter' := (State.take_frame hu).1
    rw [if_pos hends] at hresults
    simp only [hu] at hresults
    have hahead : Ahead settings d (b == 0x0A) .code [] bytes
        (u.transcript settings (b == 0x0A) bytes) :=
      ⟨u, rfl, by rw [hdelimiter', hframe, hdelimiter], hmode.trans hmode', hheld⟩
    cases statement? with
    | none =>
      subst hresults
      refine ⟨_, id, hahead, ?_⟩
      simp [statements, ← hsql]
    | some statement =>
      subst hresults
      refine ⟨_, fun hfits r hr => hfits r (List.mem_cons_of_mem _ hr), hahead, ?_⟩
      simp [statements, ← hsql, Result.sql?, State.shown, Except.map]
  · next hends =>
    rw [if_neg hends] at hresults
    exact ⟨t, hresults, hframe.trans hdelimiter, hmode', ht⟩

theorem PlainBytes.mem_of_suffix {d : List UInt8} (hd : PlainBytes d) {m : Mark}
    (h : codes d <:+ marks ++ [m]) : m.isCode = true ∧ m.byte ∈ d := by
  obtain ⟨front, hfront⟩ := h
  have hne : codes d ≠ [] := by simpa [codes] using hd.ne
  have hm : m ∈ codes d := by
    have hlast := congrArg List.getLast? hfront
    rw [List.getLast?_append_of_ne_nil _ hne, List.getLast?_concat] at hlast
    exact List.mem_of_getLast? hlast
  obtain ⟨b, hb, rfl⟩ := List.mem_map.mp hm
  exact ⟨rfl, hb⟩

/-- A mark that does not complete a delimiter leaves the marks without one. -/
theorem uncut_concat {d : List UInt8} {m : Mark} (h : ¬ codes d <:+: marks)
    (hm : ¬ codes d <:+ marks ++ [m]) : ¬ codes d <:+: marks ++ [m] := by
  rw [List.infix_concat_iff, not_or]
  exact ⟨hm, h⟩

theorem apart_concat {m : Mark} (h : m.byte ≠ 0x2D ∧ m.byte ≠ 0x2F) :
    Apart (marks ++ [m]) bytes := by
  intro m' hm'
  rw [List.getLast?_concat, Option.some_inj] at hm'
  subst hm'
  exact ⟨fun hdash => h.1 hdash.1, fun hslash => h.2 hslash.1⟩

theorem ne_opening_of_isQuote (h : isQuote b = true) : b ≠ 0x2D ∧ b ≠ 0x2F := by
  constructor <;> rintro rfl <;> simp [isQuote] at h

/-- The byte that closes a quoted stretch is the quote that opened it. -/
theorem isQuote_of_beq {q : UInt8} (hquote : ∀ q', some q = some q' → isQuote q' = true)
    (h : (b == q) = true) : isQuote b = true := by
  rw [beq_iff_eq] at h
  rw [h]
  exact hquote q rfl

/-- The opening of a comment of a line leaves no mark. -/
theorem Ahead.openLine (h : Ahead settings d lineStart .code marks (b :: bytes) results)
    (hdirective : Undirected settings lineStart .code marks (b :: bytes))
    (hroom : Roomy settings marks results)
    (hd : PlainBytes d.bytes) (hclosed : Closed marks) (hapart : Apart marks (b :: bytes))
    (hline : (b == 0x23 || (b == 0x2D && bytes.head? == some 0x2D)) = true) :
    ∃ opening rest lineStart, 0x0A ∉ opening ∧ bytes = opening ++ rest ∧
      (splitLine rest).2 = (splitLine bytes).2 ∧
      Ahead settings d lineStart .lineComment marks rest results := by
  rcases Bool.or_eq_true _ _ ▸ hline with hhash | hdash
  · rw [beq_iff_eq] at hhash
    subst hhash
    exact ⟨[], bytes, _, by simp, rfl, rfl,
      h.keep hdirective fun s hmode hs => State.keeps_hash hs hmode⟩
  · obtain ⟨hb, hbytes⟩ := exists_of_head? hdash
    rw [beq_iff_eq] at hb
    subst hb
    have hfirst := h.code hdirective hroom hd hclosed hapart rfl rfl
    rw [if_neg fun hsuffix => (hd.notOpening _ (hd.mem_of_suffix hsuffix).2).1 rfl, hbytes]
      at hfirst
    refine ⟨[0x2D], bytes.tail, false, by simp, hbytes, by rw [hbytes]; rfl, ?_⟩
    exact hfirst.keep (fun hstart _ _ => by simp at hstart)
      fun s hmode hs => State.keeps_dash hs hmode

/-- The opening of a comment in stars leaves no mark. -/
theorem Ahead.openBlock (h : Ahead settings d lineStart .code marks (b :: bytes) results)
    (hdirective : Undirected settings lineStart .code marks (b :: bytes))
    (hroom : Roomy settings marks results)
    (hd : PlainBytes d.bytes) (hclosed : Closed marks) (hapart : Apart marks (b :: bytes))
    (hblock : (b == 0x2F && bytes.head? == some 0x2A) = true) :
    Ahead settings d false (.blockComment false) marks bytes.tail results := by
  obtain ⟨hb, hbytes⟩ := exists_of_head? hblock
  rw [beq_iff_eq] at hb
  subst hb
  have hfirst := h.code hdirective hroom hd hclosed hapart rfl rfl
  rw [if_neg fun hsuffix => (hd.notOpening _ (hd.mem_of_suffix hsuffix).2).2 rfl, hbytes]
    at hfirst
  exact hfirst.keep (fun hstart _ _ => by simp at hstart)
    fun s hmode hs => State.keeps_star hs hmode

/-- A comment of a line leaves its line feed, or is the last thing in the dump. -/
theorem Ahead.passLine (h : Ahead settings d lineStart .code marks (b :: bytes) results)
    (hdirective : NoDirective settings lineStart (b :: bytes)) (hroom : Roomy settings marks results)
    (hd : PlainBytes d.bytes) (hclosed : Closed marks) (hapart : Apart marks (b :: bytes))
    (hline : (b == 0x23 || (b == 0x2D && bytes.head? == some 0x2D)) = true) :
    (Ahead settings d true .code (marks ++ [⟨0x0A, false⟩]) (splitLine bytes).2 results ∧
        NoDirective settings true (splitLine bytes).2) ∨
      (splitLine bytes).2 = [] ∧
        ∃ lineStart, Ahead settings d lineStart .lineComment marks [] results := by
  obtain ⟨opening, rest, lineStart', -, hbytes, hsplit, hopened⟩ :=
    h.openLine hdirective.undirected hroom hd hclosed hapart hline
  rw [← hsplit]
  rcases hopened.lineComment hroom with ⟨line, hrest, hnext⟩ | ⟨⟨-, hnil⟩, hlast⟩
  · rw [hrest, ← List.append_assoc] at hbytes
    exact .inl ⟨hnext, NoDirective.behind (hbytes ▸ hdirective.2)⟩
  · exact .inr ⟨hnil, hlast⟩

/-- A comment in stars leaves a blank, or is the last thing in the dump. -/
theorem Ahead.passBlock (h : Ahead settings d lineStart .code marks (b :: bytes) results)
    (hdirective : NoDirective settings lineStart (b :: bytes)) (hroom : Roomy settings marks results)
    (hd : PlainBytes d.bytes) (hclosed : Closed marks) (hapart : Apart marks (b :: bytes))
    (hblock : (b == 0x2F && bytes.head? == some 0x2A) = true) :
    (Ahead settings d false .code (marks ++ [⟨0x20, false⟩]) (splitBlock bytes.tail).2 results ∧
        NoDirective settings false (splitBlock bytes.tail).2) ∨
      (splitBlock bytes.tail).2 = [] ∧
        ∃ lineStart star, Ahead settings d lineStart (.blockComment star) marks [] results := by
  have hopened := h.openBlock hdirective.undirected hroom hd hclosed hapart hblock
  rcases hopened.blockComment rfl hroom with ⟨block, hrest, hnext⟩ | hlast
  · have hbytes : bytes = 0x2A :: block ++ 0x2F :: (splitBlock bytes.tail).2 := by
      rw [List.cons_append, ← hrest]
      exact (exists_of_head? hblock).2
    exact .inl ⟨hnext, NoDirective.behind (hbytes ▸ hdirective.2)⟩
  · exact .inr hlast

end SqlBackup.Scan
