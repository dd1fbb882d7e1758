import SqlBackup.Proofs.Scan.Ahead

/-!
# Scanners agree with the two passes

A scanner tells comments by looking back at the last byte of the text that it holds, and forgets
that text at each delimiter. Before each part of a dump its mode is the one in which the reference
reads on, and it holds what the reference has marked. So it yields the pieces of the reference.
-/
namespace SqlBackup.Scan

open Text Text.Utf8

variable {settings : Settings} {d : Delimiter} {lineStart : Bool} {marks : List Mark} {b : UInt8}
  {bytes : List UInt8} {results : List Result}

theorem append_map_cons (marks : List Mark) (part : Lexeme) (parts : List Lexeme) :
    marks ++ (part :: parts).map Lexeme.mark =
      (marks ++ [part.mark]) ++ parts.map Lexeme.mark := by simp

/-- A scanner that stands where the reference stands yields the pieces of the reference. -/
theorem Ahead.sql_eq {quote : Option UInt8}
    (h : Ahead settings d lineStart (modeOf quote) marks bytes results)
    (hdirective : NoDirective settings lineStart bytes) (hfits : Fits results)
    (hd : PlainBytes d.bytes) (hquote : ∀ q, quote = some q → isQuote q = true)
    (hclosed : quote = none → Closed marks) (hapart : quote = none → Apart marks bytes)
    (huncut : ¬ codes d.bytes <:+: marks)
    (htext : ∀ p ∈ pieces d.bytes (marks ++ (lexemes quote bytes).map Lexeme.mark), IsText p) :
    results.map Result.sql? =
      statements (pieces d.bytes (marks ++ (lexemes quote bytes).map Lexeme.mark)) ++
        [.ok none] := by
  have hplain {marks : List Mark} {m : Mark} (hm : m.isCode = false) :
      ¬ codes d.bytes <:+ marks ++ [m] := fun hsuffix => by
    rw [(hd.mem_of_suffix hsuffix).1] at hm
    cases hm
  fun_induction lexemes quote bytes generalizing lineStart marks results with
  | case1 quote =>
    rw [List.map_nil, List.append_nil, pieces_eq_singleton huncut] at htext ⊢
    exact h.finish (htext _ (List.mem_singleton_self _)) rfl
  | case2 b q hb =>
    rw [List.map_singleton,
      pieces_eq_singleton (uncut_concat huncut (hplain rfl))] at htext ⊢
    have hnext := h.read hdirective.undirected (.inl hfits)
      fun s hmode hs => State.reads_quoted hs hmode
    exact hnext.finish (htext _ (List.mem_singleton_self _)) rfl
  | case3 b q hb c bytes ih =>
    rw [append_map_cons, append_map_cons] at htext ⊢
    have hnext := h.read hdirective.undirected (.inl hfits)
      fun s hmode hs => State.reads_quoted hs hmode
    rw [if_pos hb] at hnext
    have hlast := hnext.read hdirective.2.undirected (.inl hfits)
      fun s hmode hs => State.reads_escaped hs hmode
    exact ih hlast hdirective.2.2 hfits hquote (by simp) (by simp)
      (uncut_concat (uncut_concat huncut (hplain rfl)) (hplain rfl)) htext
  | case4 b bytes q hb ih =>
    rw [append_map_cons] at htext ⊢
    have hnext := h.read hdirective.undirected (.inl hfits)
      fun s hmode hs => State.reads_quoted hs hmode
    rw [if_neg hb] at hnext
    have huncut' := uncut_concat (m := ⟨b, false⟩) huncut (hplain rfl)
    by_cases hclose : (b == q) = true
    · have hb' := isQuote_of_beq hquote hclose
      simp only [hclose, ↓reduceIte] at hnext ih htext ⊢
      exact ih hnext hdirective.2 hfits (by simp) (fun _ => closed_concat (.inl hb'))
        (fun _ => apart_concat (ne_opening_of_isQuote hb')) huncut' htext
    · simp only [hclose] at hnext ih htext ⊢
      exact ih hnext hdirective.2 hfits hquote (by simp) (by simp) huncut' htext
  | case5 b bytes hb ih =>
    rw [append_map_cons] at htext ⊢
    have hnext := h.read hdirective.undirected (.inl hfits)
      fun s hmode hs => State.reads_quote hs hmode hb
    exact ih hnext hdirective.2 hfits (by simpa using hb) (by simp) (by simp)
      (uncut_concat huncut (hplain rfl)) htext
  | case6 b bytes hb hline ih =>
    rw [append_map_cons, Lexeme.mark] at htext ⊢
    have huncut' := uncut_concat (m := ⟨0x0A, false⟩) huncut (hplain rfl)
    rcases h.passLine hdirective (.inl hfits) hd (hclosed rfl) (hapart rfl) hline with
      ⟨hnext, hbehind⟩ | ⟨hnil, _, hlast⟩
    · exact ih hnext hbehind hfits (by simp) (fun _ => closed_concat (.inr rfl))
        (fun _ => apart_concat (by simp)) huncut' htext
    · rw [hnil, lexemes, List.map_nil, List.append_nil, pieces_eq_singleton huncut'] at htext ⊢
      exact hlast.finish_comment (c := '\n') rfl (by decide) (htext _ (List.mem_singleton_self _))
  | case7 b bytes hb hline hblock ih =>
    rw [append_map_cons, Lexeme.mark] at htext ⊢
    have huncut' := uncut_concat (m := ⟨0x20, false⟩) huncut (hplain rfl)
    rcases h.passBlock hdirective (.inl hfits) hd (hclosed rfl) (hapart rfl) hblock with
      ⟨hnext, hbehind⟩ | ⟨hnil, _, _, hlast⟩
    · exact ih hnext hbehind hfits (by simp) (fun _ => closed_concat (.inr rfl))
        (fun _ => apart_concat (by simp)) huncut' htext
    · rw [hnil, lexemes, List.map_nil, List.append_nil, pieces_eq_singleton huncut'] at htext ⊢
      exact hlast.finish_comment (c := ' ') rfl (by decide) (htext _ (List.mem_singleton_self _))
  | case8 b bytes hb hline hblock ih =>
    rw [append_map_cons, Lexeme.mark] at htext ⊢
    have hnext := h.code hdirective.undirected (.inl hfits) hd (hclosed rfl) (hapart rfl)
      (by simpa using hb) (by simp_all)
    by_cases hends : codes d.bytes <:+ marks ++ [⟨b, true⟩]
    · rw [if_pos hends] at hnext
      obtain ⟨front, hfront⟩ := hends
      have hshort : ¬ codes d.bytes <:+: (front ++ codes d.bytes).dropLast := by
        rwa [hfront, List.dropLast_concat]
      have hpieces := pieces_append hd.ne hshort ((lexemes none bytes).map Lexeme.mark)
      rw [← hfront, hpieces] at htext ⊢
      obtain ⟨later, hfits', hlater, hresults⟩ :=
        hnext front hfront.symm (htext _ List.mem_cons_self)
      have hnil : ¬ codes d.bytes <:+: [] := by simpa [codes] using hd.ne
      have hrest := ih hlater hdirective.2 (hfits' hfits) (by simp) (fun _ => closed_nil)
        (fun _ => by simp [Apart]) hnil (fun p hp => htext p (List.mem_cons_of_mem _ hp))
      rw [hresults, hrest, List.nil_append, ← List.append_assoc, statements_cons]
    · rw [if_neg hends] at hnext
      refine ih hnext hdirective.2 hfits (by simp) (fun _ => (hclosed rfl).concat b)
        (fun _ m hm => ?_) (uncut_concat huncut hends) htext
      rw [List.getLast?_concat, Option.some_inj] at hm
      subst hm
      simp only [Bool.or_eq_true, Bool.and_eq_true, beq_iff_eq, not_or] at hline hblock
      exact ⟨hline.2, hblock⟩

/-- The delimiters that the reference is about: no blank, no quote, and nothing that opens or closes
a comment. -/
structure PlainDelimiter (d : String) : Prop where
  ne : d ≠ ""
  notBlank : ∀ c ∈ d.toList, isBlank c = false
  notSpecial : ∀ c ∈ d.toList, c ∉ ['\'', '"', '\x60', '#', '-', '/', '*']

theorem PlainDelimiter.not_mem {d : String} (hd : PlainDelimiter d) {c : Char} (hlt : c.toNat < 128)
    (hc : isBlank c = true ∨ c ∈ ['\'', '"', '\x60', '#', '-', '/', '*']) :
    UInt8.ofNat c.toNat ∉ encode d := by
  rw [mem_encode_iff hlt]
  intro hmem
  rcases hc with hblank | hspecial
  · rw [hd.notBlank c hmem] at hblank
    cases hblank
  · exact hd.notSpecial c hmem hspecial

theorem PlainDelimiter.plainBytes {d : String} (hd : PlainDelimiter d) : PlainBytes (encode d) where
  ne := mt encode_eq_nil.mp hd.ne
  notBlank := by
    rw [← String.ofList_toList (s := d)]
    exact isAsciiBlank_of_mem_encode hd.notBlank
  notQuote b hb := by
    rw [Bool.eq_false_iff]
    intro hquote
    simp only [isQuote, Bool.or_eq_true, beq_iff_eq] at hquote
    rcases hquote with (rfl | rfl) | rfl
    · exact hd.not_mem (c := '\'') (by decide) (by decide) hb
    · exact hd.not_mem (c := '"') (by decide) (by decide) hb
    · exact hd.not_mem (c := '\x60') (by decide) (by decide) hb
  notOpening b hb := by
    constructor
    · rintro rfl
      exact hd.not_mem (c := '-') (by decide) (by decide) hb
    · rintro rfl
      exact hd.not_mem (c := '/') (by decide) (by decide) hb

theorem statements_map_encode (texts : List String) : statements (texts.map encode) =
    ((texts.map trim).filter (!·.isEmpty)).map fun sql => .ok (some sql) := by
  rw [statements]
  congr 1
  induction texts with
  | nil => rfl
  | cons text texts ih =>
    rw [List.map_cons, List.filterMap_cons, sqlOf_encode, ih]
    by_cases h : (trim text).isEmpty = true
    · simp [h]
    · simp [h]

/-- A scanner yields the pieces of the reference, trimmed and without the empty ones, if no text
is too large and no line is a directive. -/
theorem sql_results_eq_pieces (text d : String) (settings : Settings) (hd : PlainDelimiter d)
    (hlines : ∀ line ∈ text.toList.splitOn '\n', startsDirective line = false)
    (hfits : Fits (Scanner.ofSource ⟨encode text, none⟩ settings 0 (.ofBytes (encode d))).results) :
    ∃ texts : List String,
      texts.map encode = pieces (encode d) ((lexemes none (encode text)).map Lexeme.mark) ∧
      (Scanner.ofSource ⟨encode text, none⟩ settings 0 (.ofBytes (encode d))).results.map
          Result.sql? =
        ((texts.map trim).filter (!·.isEmpty)).map (fun sql => .ok (some sql)) ++ [.ok none] := by
  have hbytes : (Delimiter.ofBytes (encode d)).bytes = encode d := by
    simp [Delimiter.ofBytes, hd.ne]
  have hplain : PlainBytes (Delimiter.ofBytes (encode d)).bytes := by
    rw [hbytes]
    exact hd.plainBytes
  rw [splitOn_lineFeed, List.forall_mem_cons] at hlines
  have hdirective : NoDirective settings.inEffect true (encode (String.ofList text.toList)) :=
    noDirective_encode (fun _ => hlines.1) hlines.2
  rw [String.ofList_toList] at hdirective
  rw [Scanner.results_ofSource] at hfits ⊢
  have hahead : Ahead settings.inEffect (.ofBytes (encode d)) true .code [] (encode text)
      ((State.initial 0 (.ofBytes (encode d))).transcript settings.inEffect true (encode text)) :=
    ⟨_, rfl, rfl, rfl, State.holds_initial 0 _⟩
  have hmarks : IsText (((lexemes none (encode text)).map Lexeme.mark).map Mark.byte) :=
    @isText_marks [] none _ (isText_encode text)
  have htext := isText_of_mem_pieces hd.ne hmarks
  obtain ⟨texts, htexts⟩ := exists_map_encode htext
  refine ⟨texts, htexts, ?_⟩
  have hsql := @Ahead.sql_eq _ _ _ _ _ _ none hahead hdirective hfits hplain (by simp)
    (fun _ => closed_nil) (fun _ => by simp [Apart]) (by simpa [codes] using hplain.ne)
    (by rwa [hbytes])
  rw [← statements_map_encode, htexts]
  rwa [hbytes] at hsql

theorem sql_results_of_comments :
    (Scanner.ofSource ⟨encode "a;-- b;\n'c;'/*;*/d", none⟩ {} 0 (.ofBytes (encode ";"))).results.map
        Result.sql? = [.ok (some "a"), .ok (some "'c;' d"), .ok none] := by
  have hpieces : pieces (encode ";")
      ((lexemes none (encode "a;-- b;\n'c;'/*;*/d")).map Lexeme.mark) =
        ["a", "\n'c;' d"].map encode := by cbv
  obtain ⟨texts, htexts, hsql⟩ := sql_results_eq_pieces "a;-- b;\n'c;'/*;*/d" ";" {}
    ⟨by decide, by simp [isBlank], by simp⟩ (by decide) (fits_of_length_le 0 _ (by decide))
  rw [hpieces] at htexts
  rw [hsql, List.map_injective_iff.mpr (fun _ _ => encode_injective) htexts]
  rfl

end SqlBackup.Scan
