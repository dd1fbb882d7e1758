import SqlBackup.Dump.Piece
import SqlBackup.Proofs.Dump.Closed
import SqlBackup.Proofs.Dump.Comments
import SqlBackup.Proofs.Scan.Reference

/-!
# Scanning a dump piece by piece

A dump whose statements are closed and whose other lines are blank or comments gives its statements
back. Between two pieces a scanner stands at the start of a line of code and holds nothing.
-/
namespace SqlBackup.Dump

open Scan Text Text.Utf8

variable {settings : Settings} {results : List Result} {lineStart : Bool}

theorem prefix_of_not_mem {α : Type} {p front rest : List α} {a : α} (h : p <+: front ++ a :: rest)
    (ha : a ∉ p) : p <+: front := by
  by_cases hlength : p.length ≤ front.length
  · exact List.prefix_of_prefix_length_le h (List.prefix_append _ _) hlength
  · have hlonger : front ++ [a] <+: p :=
      List.prefix_of_prefix_length_le ⟨rest, by simp⟩ h (by simp; omega)
    exact (ha (hlonger.subset (by simp))).elim

/-- A statement in front of a semicolon is no directive, unless it starts with the keyword. -/
theorem directive?_cut_statement {n : Nat} {cs rest : List Char}
    (h : startsDirective cs = false) :
    directive? (Chunk.cut n (encode (String.ofList (cs ++ ';' :: rest)))).bytes = none := by
  rw [← Option.not_isSome_iff_eq_none, Option.isSome_iff_exists]
  rintro ⟨d, hd⟩
  obtain ⟨blanks, keyword, blank, hblanks, hkeyword, hblank, hfront, -⟩ :=
    exists_of_directive?_cut hd
  have hsemicolon : ';' ∉ blanks ++ keyword ++ [blank] := by
    simp only [List.mem_append, List.mem_singleton, not_or]
    refine ⟨⟨fun hmem => ?_, fun hmem => ?_⟩, ?_⟩
    · exact absurd (hblanks _ hmem) (by decide)
    · exact absurd (toNat_of_sameWord hkeyword hmem).1 (by decide)
    · rintro rfl
      exact absurd hblank (by decide)
  obtain ⟨behind, rfl⟩ := prefix_of_not_mem hfront hsemicolon
  have hne : keyword ≠ [] := by
    rintro rfl
    simp [sameWord] at hkeyword
  have hfirst := @head?_words _ _ (blank :: behind) hblanks hne (isBlank_of_sameWord hkeyword)
    (by simpa using isBlank_of_isAsciiBlankChar hblank)
  rw [startsDirective, List.append_assoc _ [blank], List.singleton_append, hfirst,
    Option.any_some, hkeyword] at h
  cases h

/-- An ASCII blank in front of a text is its first character. -/
theorem exists_of_blank_cons {b : UInt8} {bytes : List UInt8} {cs : List Char}
    (hb : isAsciiBlank b = true) (h : encode (String.ofList cs) = b :: bytes) :
    ∃ c cs', cs = c :: cs' ∧ isAsciiBlankChar c = true ∧ bytes = encode (String.ofList cs') := by
  cases cs with
  | nil => simp at h
  | cons c cs =>
    obtain ⟨b', tail, hc, hblank, htail⟩ := isAsciiBlank_head_encodeChar c
    rw [encode_cons, hc, List.cons_append, List.cons.injEq] at h
    rw [h.1, hb, eq_comm] at hblank
    rw [htail hblank, List.nil_append] at h
    exact ⟨c, cs, rfl, hblank, h.2.symm⟩

theorem plain_statement {cs rest : List Char} (h : startsDirective cs = false) :
    Plain settings (encode (String.ofList (cs ++ ';' :: rest))) := by
  intro blanks back hbytes hblanks
  induction blanks generalizing cs with
  | nil => rw [← List.nil_append back, ← hbytes, directive?_cut_statement h]
  | cons b blanks ih =>
    rw [List.forall_mem_cons] at hblanks
    obtain ⟨c, cs', hcs, hc, hrest⟩ := exists_of_blank_cons hblanks.1 hbytes
    cases cs with
    | nil =>
      rw [List.nil_append, List.cons.injEq] at hcs
      rw [← hcs.1] at hc
      cases hc
    | cons c' cs =>
      rw [List.cons_append, List.cons.injEq] at hcs
      obtain ⟨rfl, rfl⟩ := hcs
      refine ih ?_ hrest.symm hblanks.2
      rw [startsDirective] at h ⊢
      have hwords := @words_append_of_blank [c']
        (by simpa using isBlank_of_isAsciiBlankChar hc) cs
      rw [List.singleton_append] at hwords
      rwa [← hwords]

/-- Blanks that are held count for nothing. -/
theorem ahead_nil {d : Delimiter} {mode : Mode} {marks : List Mark} {bytes : List UInt8}
    (h : Ahead settings d lineStart mode marks bytes results)
    (hblank : ∀ m ∈ marks, isAsciiBlank m.byte = true) :
    Ahead settings d lineStart mode [] bytes results := by
  obtain ⟨s, hresults, hdelimiter, hmode, hs⟩ := h
  have hnil : (marks.map Mark.byte).dropWhile isAsciiBlank = [] := by
    rw [List.dropWhile_eq_nil_iff, List.forall_mem_map]
    exact hblank
  refine ⟨s, hresults, hdelimiter, hmode, ?_, hs.size, hs.begun⟩
  rw [hs.pending, hnil]
  rfl

theorem roomy_nil (hlimit : 0 < settings.limit) : Roomy settings [] results := .inr hlimit

/-- A line feed between two pieces is passed over. -/
theorem ahead_lineFeed {bytes : List UInt8}
    (h : Ahead settings semicolon lineStart .code [] (0x0A :: bytes) results)
    (hdirective : Undirected settings lineStart .code [] (0x0A :: bytes))
    (hlimit : 0 < settings.limit) : Ahead settings semicolon true .code [] bytes results := by
  have hnext := h.code hdirective (roomy_nil hlimit) plainBytes_semicolon closed_nil
    (by simp [Apart]) rfl rfl
  rw [if_neg fun hsuffix => absurd (plainBytes_semicolon.mem_of_suffix hsuffix).2
    (by simp [semicolon])] at hnext
  exact ahead_nil hnext (by simp [isAsciiBlank])

/-- A closed statement is yielded, and the scanner stands at the start of the next line. -/
theorem ahead_statement {sql later : String}
    (h : Ahead settings semicolon true .code []
      ((Piece.statement sql).bytes ++ encode later) results)
    (hclosed : Closed sql) (hdirective : startsDirective sql.toList = false)
    (hlimit : (encode sql).length < settings.limit) :
    ∃ behind, Ahead settings semicolon true .code [] (encode later) behind ∧
      results.map Result.sql? = statements [encode sql] ++ behind.map Result.sql? := by
  have hbytes : (Piece.statement sql).bytes ++ encode later =
      encode sql ++ 0x3B :: (0x0A :: encode later) := by
    have hend : encode ";\n" = [0x3B, 0x0A] := by decide
    rw [Piece.bytes, Piece.text, encode_append, hend]
    simp
  have htext : encode sql ++ 0x3B :: (0x0A :: encode later) =
      encode (String.ofList (sql.toList ++ ';' :: ('\n' :: later.toList))) := by
    rw [← hbytes, Piece.bytes, ← encode_append]
    congr 1
    rw [← String.toList_inj]
    simp [Piece.text]
  rw [hbytes] at h
  have hplain : Plain settings (encode sql ++ 0x3B :: (0x0A :: encode later)) := by
    rw [htext]
    exact plain_statement hdirective
  have hcode : Ahead settings semicolon true (modeOf none) [] _ results := h
  obtain ⟨lineStart, marks, hmarks, hread, hclosed', hapart, hundirected⟩ :=
    ahead_of_closes hcode hclosed (by simp) (fun _ => closed_nil)
      (fun _ => by simp [Apart]) (fun _ => hplain)
      (lt_of_le_of_lt (List.dropWhile_sublist _).length_le (by simpa using hlimit))
  rw [List.map_nil, List.nil_append] at hmarks
  have hroom : Roomy settings marks results :=
    .inr (lt_of_le_of_lt (List.dropWhile_sublist _).length_le (by rwa [hmarks]))
  have hend := hread.code hundirected hroom plainBytes_semicolon hclosed' hapart rfl rfl
  have hends : codes semicolon.bytes <:+ marks ++ [⟨0x3B, true⟩] := List.suffix_append _ _
  rw [if_pos hends] at hend
  obtain ⟨behind, -, hbehind, hsql⟩ := hend marks rfl (hmarks ▸ isText_encode sql)
  rw [hmarks] at hsql
  exact ⟨behind, ahead_lineFeed hbehind (fun hstart _ _ => by simp at hstart)
    (Nat.zero_lt_of_lt hlimit), hsql⟩

/-- A line that says nothing is passed over. -/
theorem ahead_line {line later : String}
    (h : Ahead settings semicolon true .code [] ((Piece.line line).bytes ++ encode later) results)
    (hline : line = "" ∨ IsComment line) (hlimit : 0 < settings.limit) :
    Ahead settings semicolon true .code [] (encode later) results := by
  obtain ⟨s, rfl, hdelimiter, hmode, hs⟩ := h
  have hfree : s = .free semicolon s.position s.start := by
    rw [← hdelimiter]
    exact hs.eq_free hmode
  rw [hfree, transcript_line hline exists_ne_dash_semicolon hlimit]
  exact ⟨_, rfl, rfl, rfl, State.holds_free _ _ _⟩

/-- A piece that leaves a scanner in code, with at most this one statement. -/
def Piece.IsClosed : Piece → Prop
  | .line text => text = "" ∨ IsComment text
  | .statement sql => Closed sql ∧ startsDirective sql.toList = false

theorem exists_encode_flatMap (pieces : List Piece) :
    ∃ text, encode text = pieces.flatMap Piece.bytes := by
  induction pieces with
  | nil => exact ⟨"", encode_empty⟩
  | cons piece pieces ih =>
    obtain ⟨text, htext⟩ := ih
    exact ⟨piece.text ++ text, by rw [encode_append, htext, List.flatMap_cons, Piece.bytes]⟩

/-- A scanner at the start of some closed pieces yields the statements among them. -/
theorem sql_of_ahead {pieces : List Piece}
    (h : Ahead settings semicolon true .code [] (pieces.flatMap Piece.bytes) results)
    (hclosed : ∀ piece ∈ pieces, piece.IsClosed)
    (hlimit : ∀ sql ∈ pieces.filterMap Piece.sql?, (encode sql).length < settings.limit)
    (hpositive : 0 < settings.limit) :
    results.map Result.sql? =
      statements ((pieces.filterMap Piece.sql?).map encode) ++ [.ok none] := by
  induction pieces generalizing results with
  | nil =>
    rw [h.finish isText_nil rfl]
    rfl
  | cons piece pieces ih =>
    rw [List.forall_mem_cons] at hclosed
    obtain ⟨later, hlater⟩ := exists_encode_flatMap pieces
    rw [List.flatMap_cons, ← hlater] at h
    cases piece with
    | line line =>
      exact ih (hlater ▸ ahead_line h hclosed.1 hpositive) hclosed.2 hlimit
    | statement sql =>
      have hhere : (Piece.statement sql :: pieces).filterMap Piece.sql? =
          sql :: pieces.filterMap Piece.sql? := rfl
      rw [hhere, List.forall_mem_cons] at hlimit
      obtain ⟨behind, hbehind, hsql⟩ := ahead_statement h hclosed.1.1 hclosed.1.2 hlimit.1
      rw [hsql, ih (hlater ▸ hbehind) hclosed.2 hlimit.2, hhere,
        List.map_cons, ← List.append_assoc, statements_cons]

/-- A scanner of a dump of closed pieces yields its statements, but for those that are blank. -/
theorem sql_results_of_pieces {pieces : List Piece} (hclosed : ∀ piece ∈ pieces, piece.IsClosed)
    (settings : Settings)
    (hlimit : ∀ sql ∈ pieces.filterMap Piece.sql?, (encode sql).length < settings.limit) :
    (Scanner.ofSource ⟨pieces.flatMap Piece.bytes, none⟩ settings).results.map Result.sql? =
      (((pieces.filterMap Piece.sql?).map trim).filter (!·.isEmpty)).map
        (fun sql => .ok (some sql)) ++ [.ok none] := by
  have hahead : Ahead settings.inEffect semicolon true .code [] (pieces.flatMap Piece.bytes)
      ((State.initial 0 semicolon).transcript settings.inEffect true
        (pieces.flatMap Piece.bytes)) :=
    ⟨_, rfl, rfl, rfl, State.holds_initial 0 _⟩
  rw [Scanner.results_ofSource, ← statements_map_encode]
  exact sql_of_ahead hahead hclosed
    (fun sql hsql => lt_of_lt_of_le (hlimit sql hsql) (le_max_right _ _))
    (lt_of_lt_of_le Nat.one_pos (le_max_left _ _))

end SqlBackup.Dump
