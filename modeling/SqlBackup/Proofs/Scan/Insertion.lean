import SqlBackup.Proofs.Dump.Comments
import SqlBackup.Proofs.Scan.Padding

/-!
# Lines put into a dump

Where no text is pending, a line of blanks or a comment can be put into a dump and no statement
changes. That is so of ASCII blanks, which are dropped. Other blanks are held, so that the lines up
to the next text are not looked at for directives, and they count towards the limit.
-/
namespace SqlBackup

namespace Scan

open Text Text.Utf8

variable {settings : Settings} {d : Delimiter} {position start limit : Nat}
  {b : UInt8} {bytes rest : List UInt8} {cs : List Char}

/-! ### Blanks -/

/-- A chunk of blanks is no directive. -/
theorem directive?_cut_of_blank {n : Nat} (h : ∀ c ∈ cs, isBlank c = true) :
    directive? (Chunk.cut n (encode (String.ofList cs))).bytes = none := by
  rw [← Option.not_isSome_iff_eq_none, Option.isSome_iff_exists]
  rintro ⟨d, hd⟩
  obtain ⟨blanks, keyword, blank, -, hkeyword, -, hfront, -⟩ := exists_of_directive?_cut hd
  cases keyword with
  | nil => simp [sameWord] at hkeyword
  | cons k keyword =>
    have hk := isBlank_of_sameWord hkeyword k List.mem_cons_self
    rw [h k (hfront.subset (by simp))] at hk
    cases hk

theorem encode_lineFeed (cs : List Char) :
    encode (String.ofList (cs ++ ['\n'])) = encode (String.ofList cs) ++ [0x0A] := by
  rw [String.ofList_append, encode_append]
  rfl

/-- No word stands within blanks. -/
theorem Delimiter.IsWord.not_infix (hd : d.IsWord) (h : ∀ c ∈ cs, isBlank c = true) :
    ¬ d.bytes <:+: encode (String.ofList cs) := by
  obtain ⟨token, hne, htoken, hbytes⟩ := hd
  rintro ⟨front, behind, hsplit⟩
  rw [hbytes] at hsplit
  obtain ⟨x, y, rfl, rfl⟩ := exists_of_encode_eq (by simpa using hne) hsplit.symm
  rw [← encode_append, ← encode_append] at hsplit
  have hchars := congrArg String.toList (encode_injective hsplit)
  simp only [String.toList_append, String.toList_ofList] at hchars
  obtain ⟨c, hc⟩ := List.exists_mem_of_ne_nil token hne
  have hblank := h c (by rw [← hchars]; simp [hc])
  rw [htoken c hc] at hblank
  cases hblank

/-- No quote and no opening of a comment is the byte of a blank. -/
theorem plain_of_mem_blank (h : ∀ c ∈ cs, isBlank c = true) (hb : b ∈ encode (String.ofList cs)) :
    isQuote b = false ∧ b ≠ 0x23 ∧ b ≠ 0x2D ∧ b ≠ 0x2A := by
  have hno (c : Char) (hlt : c.toNat < 128) (hc : isBlank c = false) : b ≠ UInt8.ofNat c.toNat := by
    rintro rfl
    rw [mem_encode_iff hlt, String.toList_ofList] at hb
    rw [h c hb] at hc
    cases hc
  refine ⟨?_, hno '#' (by decide) (by decide), hno '-' (by decide) (by decide),
    hno '*' (by decide) (by decide)⟩
  simp only [isQuote, Bool.or_eq_false_iff, beq_eq_false_iff_ne]
  exact ⟨⟨hno '\'' (by decide) (by decide), hno '"' (by decide) (by decide)⟩,
    hno '`' (by decide) (by decide)⟩

namespace State

theorem step_blank (hb : isAsciiBlank b = true) :
    (free d position start).step limit b = (free d (position + 1) start, .more) := by
  simp only [isAsciiBlank, Bool.or_eq_true, beq_iff_eq] at hb
  rcases hb with (((rfl | rfl) | rfl) | rfl) | rfl <;> rfl

/-- ASCII blanks are passed over where no text is pending. -/
theorem transcript_blanks {blanks : List UInt8} (h : ∀ b ∈ blanks, isAsciiBlank b = true)
    (hfeed : 0x0A ∉ blanks) :
    (free d position start).transcript settings false (blanks ++ rest) =
      (free d (position + blanks.length) start).transcript settings false rest := by
  induction blanks generalizing position with
  | nil => rfl
  | cons b blanks ih =>
    rw [List.forall_mem_cons] at h
    rw [List.mem_cons, not_or] at hfeed
    have hb : (b == 0x0A) = false := by simpa using Ne.symm hfeed.1
    rw [List.cons_append, transcript_cons (directiveAt?_false settings _ _), step_blank h.1]
    dsimp only
    rw [hb, ih h.2 hfeed.2, List.length_cons, Nat.add_assoc, Nat.add_comm 1]

/-- Blanks that do not end in a delimiter are gathered behind a text. -/
theorem gathers_of_blank {s : State} (hcode : s.mode = .code)
    (hkept : s.begun = true ∨ ∀ b, bytes.head? = some b → isAsciiBlank b = false)
    (hplain : ∀ b ∈ bytes, isQuote b = false ∧ b ≠ 0x23 ∧ b ≠ 0x2D ∧ b ≠ 0x2A)
    (hsize : s.size = s.pending.length)
    (hends : ∀ front, front <+: bytes → front ≠ [] → ¬ s.delimiter.bytes <:+ s.pending.reverse ++ front) :
    s.Gathers bytes .code := by
  induction bytes generalizing s with
  | nil =>
    rw [← hcode]
    exact .nil s
  | cons b bytes ih =>
    rw [List.forall_mem_cons] at hplain
    obtain ⟨⟨hquote, hhash, hdash, hstar⟩, hrest⟩ := hplain
    rw [isQuote] at hquote
    have hadds : s.addition b = .add b := addition_of_kept (hkept.imp_right fun h => h b rfl)
    have heffect : s.effect b = (.add b, .code) := by
      simp [effect, hcode, hquote, hhash, hdash, hstar, hadds]
    have hcompletes : s.completes b = false := by
      rw [Bool.eq_false_iff]
      intro hcompletes
      have hturned := turned_of_effect heffect
      simp only [completes, Bool.and_eq_true] at hcompletes
      have hat := hcompletes.2
      rw [hturned] at hat
      have hlength : s.size + 1 = (b :: s.pending).length := by rw [hsize, List.length_cons]
      have hprefix : s.delimiter.bytes.reverse <+: b :: s.pending := by
        rw [← List.isPrefixOf_iff_prefix, ← Delimiter.ends_eq, ← hlength]
        exact hat
      refine hends [b] (List.prefix_append [b] bytes) (by simp) ?_
      rw [← List.reverse_prefix]
      simpa using hprefix
    have hstep := step_of_add heffect (le_refl (s.size + 1))
    rw [hcompletes] at hstep
    refine .cons hstep trivial (ih rfl (.inl (begun_holding _ _ _)) hrest ?_ ?_)
    · simp [holding, hsize]
    · intro front hfront _ hsuffix
      refine hends (b :: front) ?_ (by simp) ?_
      · obtain ⟨behind, rfl⟩ := hfront
        exact ⟨behind, rfl⟩
      · simpa [holding] using hsuffix

/-- Where a line of blanks starts, there is no directive. -/
theorem directiveAt?_of_blankLine (s : State) (h : ∀ c ∈ cs, isBlank c = true) :
    s.directiveAt? settings true (encode (String.ofList cs) ++ 0x0A :: rest) = none := by
  have hblank : ∀ c ∈ cs ++ ['\n'], isBlank c = true := by
    rw [List.forall_mem_append]
    exact ⟨h, List.forall_mem_singleton.mpr (by decide)⟩
  have hnone := @directive?_cut_of_blank _ (settings.room + 1) hblank
  rw [encode_lineFeed, ← Chunk.cut_line _ _ rest] at hnone
  rw [directiveAt?, hnone, ite_self]

theorem lineFeed_not_mem_encode (h : '\n' ∉ cs) : 0x0A ∉ encode (String.ofList cs) :=
  mt (mem_encode_iff (c := '\n') (by decide)).mp (by rwa [String.toList_ofList])

/-- A line of ASCII blanks moves the position only. -/
theorem transcript_blankLine (h : ∀ c ∈ cs, isBlank c = true) (hfeed : '\n' ∉ cs)
    (hascii : ∀ b ∈ encode (String.ofList cs), isAsciiBlank b = true) :
    (free d position start).transcript settings true (encode (String.ofList cs) ++ 0x0A :: rest) =
      (free d (position + ((encode (String.ofList cs)).length + 1)) start).transcript settings true
        rest := by
  rw [transcript_eq_false (directiveAt?_of_blankLine _ h),
    transcript_blanks hascii (lineFeed_not_mem_encode hfeed),
    transcript_cons (directiveAt?_false settings _ _), step_blank rfl]
  rfl

/-- What is left of a line of blanks without the ASCII blanks in front is a pad. -/
theorem isPad_of_blankLine (h : ∀ c ∈ cs, isBlank c = true)
    (hheld : (encode (String.ofList cs)).dropWhile isAsciiBlank ≠ []) :
    IsPad ((encode (String.ofList cs)).dropWhile isAsciiBlank ++ [0x0A]).reverse := by
  refine ⟨⟨cs.dropWhile isAsciiBlankChar ++ ['\n'], ?_, ?_⟩, ⟨0x0A, ?_, rfl⟩, ?_⟩
  · rw [List.forall_mem_append]
    exact ⟨fun c hc => h c ((List.dropWhile_suffix _).subset hc),
      List.forall_mem_singleton.mpr (by decide)⟩
  · rw [List.reverse_reverse, dropWhile_encode, encode_lineFeed]
  · rw [List.reverse_append]
    rfl
  · rw [Ne, List.dropWhile_eq_nil_iff] at hheld
    rw [List.any_reverse, List.any_append, List.any_dropWhile, Bool.or_eq_true]
    left
    simpa using hheld

/-- No word ends within a line of blanks, so all that is not dropped of it is gathered. -/
theorem gathers_of_blankLine (hd : d.IsWord) (h : ∀ c ∈ cs, isBlank c = true)
    (hheld : (encode (String.ofList cs)).dropWhile isAsciiBlank ≠ []) :
    (free d position start).Gathers
      ((encode (String.ofList cs)).dropWhile isAsciiBlank ++ [0x0A]) .code := by
  have hblank : ∀ c ∈ cs.dropWhile isAsciiBlankChar ++ ['\n'], isBlank c = true := by
    rw [List.forall_mem_append]
    exact ⟨fun c hc => h c ((List.dropWhile_suffix _).subset hc),
      List.forall_mem_singleton.mpr (by decide)⟩
  have hfirst : ∀ b, ((encode (String.ofList cs)).dropWhile isAsciiBlank ++ [0x0A]).head? = some b →
      isAsciiBlank b = false := by
    intro b hb
    have hhead := List.head?_dropWhile_not isAsciiBlank (encode (String.ofList cs))
    obtain ⟨c, held, hcons⟩ := List.exists_cons_of_ne_nil hheld
    rw [hcons, List.head?_cons] at hhead
    rw [hcons, List.cons_append, List.head?_cons, Option.some_inj] at hb
    rw [← hb]
    simpa using hhead
  rw [dropWhile_encode, ← encode_lineFeed] at hfirst ⊢
  refine gathers_of_blank rfl (.inr hfirst) (fun b hb => plain_of_mem_blank hblank hb) rfl ?_
  rintro front hfront - hsuffix
  exact hd.not_infix hblank (hsuffix.isInfix.trans hfront.isInfix)

/-- Behind a line of blanks that are not all dropped, the others are held. -/
theorem transcript_held (hd : d.IsWord) (h : ∀ c ∈ cs, isBlank c = true) (hfeed : '\n' ∉ cs)
    (hheld : (encode (String.ofList cs)).dropWhile isAsciiBlank ≠ [])
    (hfits : Fits ((free d position start).transcript settings true
      (encode (String.ofList cs) ++ 0x0A :: rest))) :
    ∃ w position', IsPad w ∧ (free d position start).transcript settings true
        (encode (String.ofList cs) ++ 0x0A :: rest) =
      ((free d position' start).padded w).transcript settings true rest := by
  have hfeed' := lineFeed_not_mem_encode hfeed
  have hsplit := List.takeWhile_append_dropWhile (p := isAsciiBlank) (l := encode (String.ofList cs))
  have hgathers (position' : Nat) :=
    @gathers_of_blankLine d position' start cs hd h hheld
  have hpad := isPad_of_blankLine h hheld
  have hdropped : ∀ b ∈ (encode (String.ofList cs)).takeWhile isAsciiBlank, isAsciiBlank b = true :=
    List.all_eq_true.mp List.all_takeWhile
  rw [transcript_eq_false (directiveAt?_of_blankLine _ h)] at hfits ⊢
  generalize encode (String.ofList cs) = line at *
  generalize line.takeWhile isAsciiBlank = dropped at *
  generalize line.dropWhile isAsciiBlank = held at *
  subst hsplit
  rw [List.mem_append, not_or] at hfeed'
  rw [List.append_assoc, transcript_blanks hdropped hfeed'.1] at hfits ⊢
  have hgathers := hgathers (position + dropped.length)
  have hbytes : held ++ 0x0A :: rest = (held ++ [0x0A]) ++ rest := by simp
  rw [hbytes] at hfits ⊢
  rcases Nat.lt_or_ge settings.limit (held ++ [0x0A]).length with hfull | hroom
  · have hsize : (free d (position + dropped.length) start).size ≤ settings.limit := Nat.zero_le _
    obtain ⟨t, behind, hscan⟩ := hgathers.scan_full hsize (by simpa [free] using hfull) []
    have hwithin : WithinLine (held ++ [0x0A]) := by rw [WithinLine, List.dropLast_concat]; exact hfeed'.2
    rw [List.append_nil] at hscan
    rw [transcript_append settings _ hwithin, hscan] at hfits
    exact absurd rfl (hfits _ (List.mem_singleton_self _) _ _)
  · refine ⟨_, position + dropped.length + (held ++ [0x0A]).length, hpad, ?_⟩
    rw [hgathers.transcript (by simpa [free] using hroom) (directiveAt?_false settings _ _),
      List.getLast?_concat]
    congr 1
    simp [holding, padded, free]

/-- Where a stream comes to a directive does not depend on where in a dump it stands. -/
theorem comesToDirective_placed (s : State) (lineStart : Bool) (bytes : List UInt8) (p q : Nat) :
    (s.placed p q).comesToDirective settings lineStart bytes =
      s.comesToDirective settings lineStart bytes := by
  induction bytes generalizing s lineStart p with
  | nil => rfl
  | cons b bytes ih =>
    rw [comesToDirective, comesToDirective, directiveAt?_placed, step_placed]
    rcases s.step settings.limit b with ⟨t, signal⟩
    cases signal with
    | more =>
      dsimp only
      rw [ih]
    | boundary => rfl
    | tooLarge => rfl

/-- A line of blanks changes nothing, if no directive stands before the next text and no text is too
large by it. -/
theorem said_blankLine (hd : d.IsWord) (h : ∀ c ∈ cs, isBlank c = true) (hfeed : '\n' ∉ cs)
    (hno : (free d position start).comesToDirective settings true rest = false)
    (hfits : Fits ((free d position start).transcript settings true
      (encode (String.ofList cs) ++ 0x0A :: rest))) :
    ((free d position start).transcript settings true
        (encode (String.ofList cs) ++ 0x0A :: rest)).map Result.said =
      ((free d position start).transcript settings true rest).map Result.said := by
  by_cases hheld : (encode (String.ofList cs)).dropWhile isAsciiBlank = []
  · rw [transcript_blankLine h hfeed (List.dropWhile_eq_nil_iff.mp hheld)]
    exact said_placed settings (free d position start) true rest _ start
  · obtain ⟨w, position', hw, hsame⟩ := transcript_held hd h hfeed hheld hfits
    have hheld' : (free d position' start).Holds (codes []) := holds_free d position' start
    have hno' : (free d position' start).comesToDirective settings true rest = false :=
      (comesToDirective_placed (free d position start) true rest position' start).trans hno
    rw [hsame] at hfits ⊢
    rw [transcript_padded hheld' hw hd hno' hfits]
    exact said_placed settings (free d position start) true rest position' start

end State

/-! ### Lines that are passed over -/

/-- Lines that are passed over where no text is pending, while this delimiter is in effect. A dash
that is the whole delimiter ends a blank text before it can open a comment. -/
inductive PassedOver (d : Delimiter) : List UInt8 → Prop where
  | blanks {line : String} : (∀ c ∈ line.toList, isAsciiBlankChar c = true) →
      PassedOver d (encode line)
  | sign (remark : List UInt8) : PassedOver d (0x23 :: remark)
  | dashes (remark : List UInt8) : d.bytes ≠ [] → d.bytes ≠ [0x2D] →
      PassedOver d (0x2D :: 0x2D :: remark)

theorem directive?_cut_cons_eq_none {n : Nat} {c : Char} (hblank : isBlank c = false)
    (hletter : c.toNat < 65) (bytes : List UInt8) :
    directive? (Chunk.cut (n + 1) (UInt8.ofNat c.toNat :: bytes)).bytes = none := by
  unfold Chunk.cut
  split
  · exact Dump.directive?_cons_eq_none hblank hletter []
  · exact Dump.directive?_cons_eq_none hblank hletter _

/-- Such a line moves the position only. -/
theorem PassedOver.transcript {line : List UInt8} (h : PassedOver d line) (hfeed : 0x0A ∉ line)
    (hlimit : 0 < settings.limit) :
    (State.free d position start).transcript settings true (line ++ 0x0A :: rest) =
      (State.free d (position + (line.length + 1)) start).transcript settings true rest := by
  cases h with
  | @blanks line hascii =>
    have hchars : '\n' ∉ line.toList := mt (mem_encode_iff (c := '\n') (by decide)).mpr hfeed
    have hbytes : ∀ b ∈ encode (String.ofList line.toList), isAsciiBlank b = true := by
      rw [← List.dropWhile_eq_nil_iff, dropWhile_encode, List.dropWhile_eq_nil_iff.mpr hascii]
      rfl
    rw [← String.ofList_toList (s := line)]
    exact State.transcript_blankLine (fun c hc => isBlank_of_isAsciiBlankChar (hascii c hc)) hchars
      hbytes
  | sign remark =>
    rw [List.mem_cons, not_or] at hfeed
    rw [List.cons_append, State.transcript_hash (directive?_cut_cons_eq_none (c := '#') (by decide)
      (by decide) _), State.transcript_remark hfeed.2, List.length_cons]
    congr 2
    omega
  | dashes remark hne hdash =>
    rw [List.mem_cons, not_or, List.mem_cons, not_or] at hfeed
    have hends : d.ends [0x2D] 1 = false := by
      rw [Bool.eq_false_iff, Ne, Delimiter.ends_dash_iff, not_or]
      exact ⟨hne, hdash⟩
    rw [List.cons_append, List.cons_append, State.transcript_dashes hends hlimit
      (directive?_cut_cons_eq_none (c := '-') (by decide) (by decide) _),
      State.transcript_remark hfeed.2.2, List.length_cons, List.length_cons]
    congr 2
    omega

/-! ### Other bytes behind the same lines -/

/-- Nothing behind a chunk was looked at, unless the stream ended within it. -/
theorem Chunk.complete_or_rest_eq_nil (n : Nat) (bytes : List UInt8) :
    (Chunk.cut n bytes).complete = true ∨ (Chunk.cut n bytes).rest = [] := by
  induction n generalizing bytes with
  | zero => exact .inl rfl
  | succ n ih =>
    cases bytes with
    | nil => exact .inr rfl
    | cons b bytes =>
      unfold Chunk.cut
      split
      · exact .inl rfl
      · exact ih bytes

theorem Chunk.cut_cut (n : Nat) (bytes : List UInt8) :
    Chunk.cut n (Chunk.cut n bytes).bytes =
      ⟨(Chunk.cut n bytes).bytes, [], (Chunk.cut n bytes).complete⟩ := by
  induction n generalizing bytes with
  | zero => rfl
  | succ n ih =>
    cases bytes with
    | nil => rfl
    | cons b bytes =>
      by_cases hfeed : (b == 0x0A) = true
      · simp only [Chunk.cut, hfeed, if_true]
      · simp only [Chunk.cut, hfeed, Bool.false_eq_true, if_false, ih bytes]

/-- A chunk that was cut off in full is cut off whatever stands behind it. -/
theorem Chunk.cut_of_complete {n : Nat} {bytes : List UInt8}
    (h : (Chunk.cut n bytes).complete = true) (more : List UInt8) :
    Chunk.cut n ((Chunk.cut n bytes).bytes ++ more) = ⟨(Chunk.cut n bytes).bytes, more, true⟩ := by
  have hself := Chunk.cut_cut n bytes
  have hcomplete : (Chunk.cut n (Chunk.cut n bytes).bytes).complete = true := by rw [hself, h]
  rw [Chunk.cut_append_of_complete hcomplete, hself, List.nil_append]

end Scan

open Scan Text

namespace Scanner

variable {sc sc' : Scanner} {log entries : List Entry} {lines rest : List UInt8}

/-- The same scanner with these bytes still to load. -/
def ahead (sc : Scanner) (bytes : List UInt8) : Scanner :=
  { sc with source := { sc.source with bytes } }

/-- What is still to load is these lines, and then these bytes, which start a line. -/
structure LoadsLines (sc : Scanner) (lines rest : List UInt8) : Prop where
  bytes : sc.source.bytes = lines ++ rest
  startsLine : lines.getLast?.elim sc.atLineStart (· == 0x0A) = true

theorem Loads.ahead {c : Chunk} (h : sc.Loads c) (hrest : (sc.consume c).LoadsLines lines rest)
    (rest' : List UInt8) :
    (sc.ahead (c.bytes ++ lines ++ rest')).Loads ⟨c.bytes, lines ++ rest', true⟩ := by
  obtain ⟨hopen, hempty, rfl, -, hne⟩ := h
  have hbytes : (Chunk.cut (sc.settings.room + 1) sc.source.bytes).rest = lines ++ rest :=
    hrest.bytes
  have hcomplete : (Chunk.cut (sc.settings.room + 1) sc.source.bytes).complete = true := by
    cases lines with
    | nil =>
      have hfeed := List.mem_of_getLast? (eq_of_beq hrest.startsLine)
      rw [← Chunk.cut_append (sc.settings.room + 1) sc.source.bytes]
      exact Chunk.complete_of_mem (List.mem_append_left _ hfeed)
    | cons b lines =>
      refine (Chunk.complete_or_rest_eq_nil _ _).resolve_right ?_
      rw [hbytes]
      exact List.cons_ne_nil _ _
  refine ⟨hopen, hempty, ?_, .inl rfl, hne⟩
  show Chunk.cut (sc.settings.room + 1) (_ ++ lines ++ rest') = _
  rw [List.append_assoc, Chunk.cut_of_complete hcomplete]

/-- What is loaded in a move came before those lines. -/
theorem Move.ahead (h : Move sc entries sc') (hrest : sc'.LoadsLines lines rest) :
    ∃ front, sc.LoadsLines front rest ∧
      ∀ rest', Move (sc.ahead (front ++ rest')) entries (sc'.ahead (lines ++ rest')) := by
  have hlast (c : List UInt8) (hne : c ≠ []) (start : Bool)
      (h : lines.getLast?.elim (c.getLast? == some 0x0A) (· == 0x0A) = true) :
      (c ++ lines).getLast?.elim start (· == 0x0A) = true := by
    cases lines with
    | nil =>
      rw [List.append_nil, eq_of_beq h]
      rfl
    | cons b lines =>
      rw [List.getLast?_append_of_ne_nil _ (List.cons_ne_nil _ _)]
      rw [List.getLast?_cons, Option.elim_some] at h ⊢
      exact h
  cases h with
  | read hopen hchunk hread =>
    exact ⟨lines, ⟨hrest.bytes, hrest.startsLine⟩, fun rest' => .read hopen hchunk hread⟩
  | @load c hloads hd =>
    have hconsumed : (sc.consume c).LoadsLines lines rest := ⟨hrest.bytes, hrest.startsLine⟩
    refine ⟨c.bytes ++ lines, ⟨?_, hlast _ hloads.nonempty _ hrest.startsLine⟩, fun rest' => ?_⟩
    · rw [hloads.bytes_eq, List.append_assoc]
      exact congrArg (c.bytes ++ ·) hrest.bytes
    · exact .load (hloads.ahead hconsumed rest') hd
  | @obey c d hloads hd =>
    have hconsumed : (sc.consume c).LoadsLines lines rest := ⟨hrest.bytes, hrest.startsLine⟩
    refine ⟨c.bytes ++ lines, ⟨?_, hlast _ hloads.nonempty _ hrest.startsLine⟩, fun rest' => ?_⟩
    · rw [hloads.bytes_eq, List.append_assoc]
      exact congrArg (c.bytes ++ ·) hrest.bytes
    · exact .obey (hloads.ahead hconsumed rest') hd

/-- A scanner that has come to the start of a line has not looked at what stands there. -/
theorem Moves.ahead (h : Moves sc log sc') (hrest : sc'.LoadsLines lines rest) :
    ∃ front, sc.LoadsLines front rest ∧
      ∀ rest', Moves (sc.ahead (front ++ rest')) log (sc'.ahead (lines ++ rest')) := by
  induction h generalizing lines with
  | refl => exact ⟨lines, hrest, fun _ => .refl⟩
  | tail _ hmove ih =>
    obtain ⟨middle, hmiddle, hlast⟩ := hmove.ahead hrest
    obtain ⟨front, hfront, hmoves⟩ := ih hmiddle
    exact ⟨front, hfront, fun rest' => (hmoves rest').tail (hlast rest')⟩

/-! ### Where a line can be put -/

/-- What a call shows that ends with this entry, if one does. -/
def shown? : Entry → Option Result
  | .reading ⟨_, _, after, .ended (some statement)⟩ => some (after.shown (.ok (some statement)))
  | _ => none

theorem results_of_next (h : sc.next = sc'.next) : sc.results = sc'.results := by
  rcases hnext : sc'.next with ⟨last, fault | (_ | statement)⟩
  · rw [results_of_last (h.trans hnext) (by simp), results_of_last hnext (by simp)]
  · rw [results_of_last (h.trans hnext) (by simp), results_of_last hnext (by simp)]
  · rw [results_of_statement (h.trans hnext), results_of_statement hnext]

/-- What a scanner shows is what it showed in its moves, and what it shows behind them. -/
theorem Move.results (h : Move sc entries sc') (hopen : sc'.finished = false) :
    sc.results = entries.filterMap shown? ++ sc'.results := by
  cases h with
  | @read b chunk t outcome _ hchunk hread =>
    have hmove := Move.read ‹_› hchunk hread
    rcases outcome with _ | (_ | statement) | fault
    · exact results_of_next (next_of_move hmove (by simp [Quiet]))
    · exact results_of_next (next_of_move hmove (by simp [Quiet]))
    · exact results_of_statement (@next_of_stop _ _ _ (.ok statement) hmove rfl)
    · cases hopen
  | load hloads hd => exact results_of_next (next_of_move (.load hloads hd) quiet_nil)
  | obey hloads hd => exact results_of_next (next_of_move (.obey hloads hd) (quiet_directive _ _))

theorem Move.isOpen (h : Move sc entries sc') : sc.finished = false := by
  cases h with
  | read hopen => exact hopen
  | load hloads => exact hloads.isOpen
  | obey hloads => exact hloads.isOpen

theorem Moves.results (h : Moves sc log sc') (hopen : sc'.finished = false) :
    sc.results = log.filterMap shown? ++ sc'.results := by
  induction h with
  | refl => rfl
  | tail _ hmove ih =>
    rw [ih hmove.isOpen, hmove.results hopen, List.filterMap_append, List.append_assoc]

theorem Move.holds (h : Move sc entries sc') (hsc : ∃ text, sc.state.Holds (codes text)) :
    ∃ text, sc'.state.Holds (codes text) := by
  obtain ⟨text, htext⟩ := hsc
  cases h with
  | @read b _ _ _ _ _ hread =>
    obtain ⟨text', htext'⟩ := htext.turned b
    cases State.comesTo_of_read hread with
    | refused => exact ⟨text', htext'.of_eq rfl rfl rfl⟩
    | more => exact ⟨text', htext'.of_eq rfl rfl rfl⟩
    | taken _ _ htake =>
      have hheld := State.holds_take (sc.state.moved b) true
      rw [htake] at hheld
      exact ⟨[], hheld⟩
  | load => exact ⟨text, htext⟩
  | obey => exact ⟨text, htext.of_eq rfl rfl rfl⟩

theorem Moves.holds (h : Moves sc log sc') (hsc : ∃ text, sc.state.Holds (codes text)) :
    ∃ text, sc'.state.Holds (codes text) := by
  induction h with
  | refl => exact hsc
  | tail _ hmove ih => exact hmove.holds ih

/-- A delimiter is a word, if the one before was, since directives set words. -/
theorem Move.isWord (h : Move sc entries sc') (hsc : sc.delimiter.IsWord) :
    sc'.delimiter.IsWord := by
  cases h with
  | read _ _ hread =>
    have hframe := (State.read_frame hread).2
    rw [delimiter, hframe]
    exact hsc
  | load => exact hsc
  | obey _ hd => exact exists_of_directive? (directive?_of_directiveIn? hd)

/-- The delimiter of a dump is a word, wherever the scanner stands in it. -/
theorem Moves.isWord {source : Source} {settings : Settings} {offset : Nat}
    (h : Moves (ofSource source settings offset semicolon) log sc) : sc.delimiter.IsWord := by
  induction h with
  | refl => exact isWord_semicolon
  | tail _ hmove ih => exact hmove.isWord ih

/-- A scanner at the start of a line, in code and with no text pending. -/
structure AtFreshLine (sc : Scanner) : Prop where
  isOpen : sc.finished = false
  startsLine : sc.startsLine = true
  code : sc.state.mode = .code
  notBegun : sc.state.begun = false

theorem AtFreshLine.chunk (h : sc.AtFreshLine) : sc.chunk = [] := by
  have hstarts := h.startsLine
  rw [Scanner.startsLine, Bool.and_eq_true, List.isEmpty_iff] at hstarts
  exact hstarts.1

theorem AtFreshLine.atLineStart (h : sc.AtFreshLine) : sc.atLineStart = true := by
  have hstarts := h.startsLine
  rw [Scanner.startsLine, Bool.and_eq_true] at hstarts
  exact hstarts.2

theorem AtFreshLine.aligned (h : sc.AtFreshLine) : sc.Aligned :=
  ⟨by simp [h.chunk, WithinLine], fun hne => absurd h.chunk hne⟩

theorem AtFreshLine.state (h : sc.AtFreshLine) (hholds : ∃ text, sc.state.Holds (codes text)) :
    sc.state = .free sc.delimiter sc.position sc.state.start := by
  obtain ⟨text, htext⟩ := hholds
  have hnil : sc.state.pending = [] := by
    have hbegun := htext.begun
    rwa [h.notBegun, eq_comm, Bool.not_eq_false', List.isEmpty_iff] at hbegun
  have hnone : sc.state.Holds [] := ⟨by simp [hnil], htext.size, htext.begun⟩
  exact hnone.eq_free h.code

/-- What is said of these bytes, statement by statement. -/
def said (settings : Settings) (offset : Nat) (d : Delimiter) (bytes : List UInt8) :
    List (Option (Option String) × Delimiter) :=
  (ofSource ⟨bytes, none⟩ settings offset d).results.map Result.said

/-- The same is said with a line put in between these bytes. -/
def Unheard (settings : Settings) (offset : Nat) (d : Delimiter) (front line rest : List UInt8) :
    Prop :=
  said settings offset d (front ++ (line ++ 0x0A :: rest)) = said settings offset d (front ++ rest)

/-- Which lines change nothing of what is said if they are put in where this scanner stands. -/
structure TakesLines (settings : Settings) (offset : Nat) (d : Delimiter) (front rest : List UInt8)
    (sc : Scanner) : Prop where
  passedOver : ∀ line, PassedOver sc.delimiter line → 0x0A ∉ line →
    Unheard settings offset d front line rest
  /-- Blanks of any kind, where no directive stands before the next text and no text is too large. -/
  blank : ∀ line : String, (∀ c ∈ line.toList, isBlank c = true) → '\n' ∉ line.toList →
    sc.delimiter.IsWord → sc.state.comesToDirective sc.settings true rest = false →
    Fits (ofSource ⟨front ++ (Utf8.encode line ++ 0x0A :: rest), none⟩ settings offset d).results →
    Unheard settings offset d front (Utf8.encode line) rest

/-- A stream shows what it shows of its first lines, and then what it shows of the bytes behind them,
whichever these are. -/
theorem results_behind {front : List UInt8} {settings : Settings} {offset : Nat} {d : Delimiter}
    (hmoves : Moves (ofSource ⟨front ++ rest, none⟩ settings offset d) log sc)
    (hfresh : sc.AtFreshLine) (hrest : sc.unread = rest) :
    ∃ position start, ∀ bytes, (ofSource ⟨front ++ bytes, none⟩ settings offset d).results =
      log.filterMap shown? ++
        (State.free sc.delimiter position start).transcript sc.settings true bytes := by
  have hbytes : sc.source.bytes = [] ++ rest := by
    rw [← hrest, unread, hfresh.chunk]
    rfl
  obtain ⟨front', ⟨hfront, -⟩, hahead⟩ := hmoves.ahead ⟨hbytes, hfresh.atLineStart⟩
  obtain rfl : front = front' := List.append_cancel_right hfront
  have hstate := hfresh.state (hmoves.holds ⟨[], State.holds_initial offset d⟩)
  refine ⟨sc.position, sc.state.start, fun bytes => ?_⟩
  have hbehind : (sc.ahead bytes).AtFreshLine :=
    ⟨hfresh.isOpen, hfresh.startsLine, hfresh.code, hfresh.notBegun⟩
  have hsound : (sc.ahead bytes).source.failure = none := hmoves.reads.failure
  have hmoves' : Moves (ofSource ⟨front ++ bytes, none⟩ settings offset d) log (sc.ahead bytes) :=
    hahead bytes
  rw [hmoves'.results hfresh.isOpen, results_eq_transcript hbehind.aligned hfresh.isOpen hsound,
    hbehind.startsLine, unread, hbehind.chunk, List.nil_append, ← hstate]
  rfl

/-- Lines that say nothing can be put in wherever no text is pending at the start of a line. -/
theorem takesLines_ofSource {front : List UInt8} {settings : Settings} {offset : Nat}
    {d : Delimiter} (hmoves : Moves (ofSource ⟨front ++ rest, none⟩ settings offset d) log sc)
    (hfresh : sc.AtFreshLine) (hrest : sc.unread = rest) :
    TakesLines settings offset d front rest sc := by
  obtain ⟨position, start, hsplit⟩ := results_behind hmoves hfresh hrest
  have hstate := hfresh.state (hmoves.holds ⟨[], State.holds_initial offset d⟩)
  have hlimit : 0 < sc.settings.limit := by
    rw [hmoves.reads.settings]
    exact lt_of_lt_of_le Nat.one_pos (le_max_left 1 settings.limit)
  constructor
  case passedOver =>
    intro line hline hfeed
    have hplaced := State.said_placed sc.settings (.free sc.delimiter position start) true rest
      (position + (line.length + 1)) start
    rw [Unheard, said, said, hsplit, hsplit, List.map_append, List.map_append,
      hline.transcript hfeed hlimit]
    exact congrArg (_ ++ ·) hplaced
  case blank =>
    intro line hline hfeed hword hno hfits
    have hno' : (State.free sc.delimiter position start).comesToDirective sc.settings true rest =
        false := by
      rw [hstate] at hno
      rw [← hno]
      exact State.comesToDirective_placed (.free sc.delimiter sc.position sc.state.start) true rest
        position start
    rw [hsplit, ← String.ofList_toList (s := line)] at hfits
    rw [Unheard, said, said, hsplit, hsplit, List.map_append, List.map_append,
      ← String.ofList_toList (s := line)]
    rw [State.said_blankLine hword hline hfeed hno'
      fun r hr => hfits r (List.mem_append_right _ hr)]

/-- The scanner of `slashes` behind the directive. -/
def slashed : Scanner :=
  { ofSource ⟨Utf8.encode "a// b", none⟩ with
    state := (State.initial 0 semicolon).obey (.ofBytes [0x2F, 0x2F]) 13 }

/-- Behind the directive a blank line or a comment can be put in. -/
theorem takesLines_of_slashes :
    Moves (ofSource ⟨Utf8.encode "DELIMITER //\n" ++ Utf8.encode "a// b", none⟩)
      [.directive (Utf8.encode "DELIMITER //\n") (.ofBytes [0x2F, 0x2F])] slashed ∧
    slashed.AtFreshLine ∧
    TakesLines {} 0 semicolon (Utf8.encode "DELIMITER //\n") (Utf8.encode "a// b") slashed := by
  have hcut : Chunk.cut ((Settings.inEffect {}).room + 1)
      (Utf8.encode "DELIMITER //\n" ++ Utf8.encode "a// b") =
        ⟨Utf8.encode "DELIMITER //\n", Utf8.encode "a// b", true⟩ := by cbv
  have hdirective : directive? (Utf8.encode "DELIMITER //\n") = some (.ofBytes [0x2F, 0x2F]) := by cbv
  have hmove := @Move.obey
    (ofSource ⟨Utf8.encode "DELIMITER //\n" ++ Utf8.encode "a// b", none⟩) _ _
    ⟨rfl, rfl, hcut, .inl rfl, by simp⟩ hdirective
  have hbehind : (consume (ofSource ⟨Utf8.encode "DELIMITER //\n" ++ Utf8.encode "a// b", none⟩)
      ⟨Utf8.encode "DELIMITER //\n", Utf8.encode "a// b", true⟩).obey (.ofBytes [0x2F, 0x2F])
        (Utf8.encode "DELIMITER //\n").length = slashed := by cbv
  rw [hbehind] at hmove
  have hmoves := Moves.single hmove
  have hfresh : slashed.AtFreshLine := ⟨rfl, rfl, rfl, rfl⟩
  exact ⟨hmoves, hfresh, takesLines_ofSource hmoves hfresh rfl⟩

/-- A blank line hides the directive behind it if its blank is no ASCII blank. -/
theorem said_verticalTab :
    said {} 0 semicolon slashes =
      [(some (some "a"), .ofBytes [0x2F, 0x2F]), (some (some "b"), .ofBytes [0x2F, 0x2F]),
        (some none, .ofBytes [0x2F, 0x2F])] ∧
    said {} 0 semicolon (0x0B :: 0x0A :: slashes) =
      [(some (some "DELIMITER //\na// b"), semicolon), (some none, semicolon)] := by
  constructor
  · rw [said, results_slashes]
    rfl
  · let held (pending : List UInt8) (size : Nat) : State :=
      ⟨.code, true, pending, size, semicolon, size, 0⟩
    have hbegun (pending : List UInt8) (size : Nat) (bytes : List UInt8) :
        (held pending size).directiveAt? (Settings.inEffect {}) true bytes = none := rfl
    have hcut : (Chunk.cut ((Settings.inEffect {}).room + 1) (0x0B :: 0x0A :: slashes)).bytes =
        [0x0B, 0x0A] := by cbv
    have hopen : (State.initial 0 semicolon).directiveAt? (Settings.inEffect {}) true
        (0x0B :: 0x0A :: slashes) = none := by
      rw [State.directiveAt?, hcut]
      cbv
    have hbytes : 0x0B :: 0x0A :: slashes = [0x0B, 0x0A] ++ (Utf8.encode "DELIMITER //\n" ++
        (Utf8.encode "a// b" ++ [])) := by cbv
    have hfirst : (State.initial 0 semicolon).scan (Settings.inEffect {}).limit [0x0B, 0x0A] =
        (held [0x0A, 0x0B] 2, [], none) := by cbv
    have hsecond : (held [0x0A, 0x0B] 2).scan (Settings.inEffect {}).limit
        (Utf8.encode "DELIMITER //\n") =
          (held (Utf8.encode "\x0b\nDELIMITER //\n").reverse 15, [], none) := by cbv
    have hthird : (held (Utf8.encode "\x0b\nDELIMITER //\n").reverse 15).scan
        (Settings.inEffect {}).limit (Utf8.encode "a// b") =
          (held (Utf8.encode "\x0b\nDELIMITER //\na// b").reverse 20, [], none) := by cbv
    have hlast : (held (Utf8.encode "\x0b\nDELIMITER //\na// b").reverse 20).take false =
        (.initial 20 semicolon, .ok (some ⟨"DELIMITER //\na// b", 20, 20⟩)) := by cbv
    rw [said, results_ofSource]
    show (State.transcript _ (.initial 0 semicolon) true _).map _ = _
    rw [State.transcript_eq_false hopen, hbytes, State.transcript_append _ _ (by decide), hfirst,
      State.afterScan]
    show (State.transcript _ (held _ _) true _).map _ = _
    rw [State.transcript_eq_false (hbegun _ _ _), State.transcript_append _ _ (by decide), hsecond,
      State.afterScan]
    show (State.transcript _ (held _ _) true _).map _ = _
    rw [State.transcript_eq_false (hbegun _ _ _), State.transcript_append _ _ (by decide), hthird,
      State.afterScan, State.transcript_nil, hlast]
    rfl

end Scanner

end SqlBackup
