import Mathlib
import SqlBackup.Proofs.Text.Blank
import SqlBackup.Scan.State

/-!
# Dumps read in two passes

The reference for a scanner. The first pass knows no delimiter: it looks ahead to tell code, quoted
stretches and comments apart, over the whole dump. The second pass puts one blank in the place of
each comment and cuts what is left at the delimiters that are code throughout.
-/
namespace SqlBackup.Scan

/-- The bytes that open and close a quoted stretch. -/
def isQuote (b : UInt8) : Bool := b == 0x27 || b == 0x22 || b == 0x60

/-- A part of a dump, as told apart without a delimiter. -/
inductive Lexeme where
  | code (b : UInt8)
  /-- A byte of a quoted stretch, its quotes included. -/
  | quoted (b : UInt8)
  /-- A comment with the line feed behind it, if there is one. -/
  | lineComment (bytes : List UInt8)
  | blockComment (bytes : List UInt8)
  deriving DecidableEq

/-- The bytes that the part takes up. -/
def Lexeme.bytes : Lexeme → List UInt8
  | .code b => [b]
  | .quoted b => [b]
  | .lineComment bytes => bytes
  | .blockComment bytes => bytes

/-- Cuts behind the first line feed. -/
def splitLine : List UInt8 → List UInt8 × List UInt8
  | [] => ([], [])
  | b :: bytes =>
      if b == 0x0A then ([b], bytes)
      else
        let (line, rest) := splitLine bytes
        (b :: line, rest)

/-- Cuts behind the first `*/`. -/
def splitBlock : List UInt8 → List UInt8 × List UInt8
  | [] => ([], [])
  | b :: bytes =>
      if b == 0x2A && bytes.head? == some 0x2F then ([b, 0x2F], bytes.tail)
      else
        let (block, rest) := splitBlock bytes
        (b :: block, rest)

theorem splitLine_append (bytes : List UInt8) :
    (splitLine bytes).1 ++ (splitLine bytes).2 = bytes := by
  induction bytes with
  | nil => rfl
  | cons b bytes ih =>
    simp only [splitLine]
    split
    · rfl
    · simp [ih]

theorem splitBlock_append (bytes : List UInt8) :
    (splitBlock bytes).1 ++ (splitBlock bytes).2 = bytes := by
  induction bytes with
  | nil => rfl
  | cons b bytes ih =>
    simp only [splitBlock]
    split
    · next h =>
      rw [Bool.and_eq_true, beq_iff_eq, beq_iff_eq, List.head?_eq_some_iff] at h
      obtain ⟨-, rest, rfl⟩ := h
      rfl
    · simp [ih]

theorem length_splitLine_le (bytes : List UInt8) : (splitLine bytes).2.length ≤ bytes.length := by
  conv_rhs => rw [← splitLine_append bytes]
  simp

theorem length_splitBlock_le (bytes : List UInt8) :
    (splitBlock bytes).2.length ≤ bytes.length := by
  conv_rhs => rw [← splitBlock_append bytes]
  simp

/-- Tells the parts of a dump apart. `quote` is the quote of the stretch that it starts in. -/
def lexemes (quote : Option UInt8) : List UInt8 → List Lexeme
  | [] => []
  | b :: bytes =>
      match quote with
      | some q =>
          if b == 0x5C then
            match bytes with
            | [] => [.quoted b]
            | c :: bytes => .quoted b :: .quoted c :: lexemes (some q) bytes
          else .quoted b :: lexemes (if b == q then none else some q) bytes
      | none =>
          if isQuote b then .quoted b :: lexemes (some b) bytes
          else if b == 0x23 || (b == 0x2D && bytes.head? == some 0x2D) then
            .lineComment (b :: (splitLine bytes).1) :: lexemes none (splitLine bytes).2
          else if b == 0x2F && bytes.head? == some 0x2A then
            .blockComment (b :: 0x2A :: (splitBlock bytes.tail).1) ::
              lexemes none (splitBlock bytes.tail).2
          else .code b :: lexemes none bytes
termination_by bytes => bytes.length
decreasing_by
  · simp only [List.length_cons]; omega
  · simp
  · simp
  · have := length_splitLine_le bytes
    simp only [List.length_cons]
    omega
  · have := length_splitBlock_le bytes.tail
    simp only [List.length_tail, List.length_cons] at this ⊢
    omega
  · simp

theorem exists_of_head? {p : Bool} {c : UInt8} {bytes : List UInt8}
    (h : (p && bytes.head? == some c) = true) : p = true ∧ bytes = c :: bytes.tail := by
  rw [Bool.and_eq_true, beq_iff_eq, List.head?_eq_some_iff] at h
  obtain ⟨hp, rest, rfl⟩ := h
  exact ⟨hp, rfl⟩

/-- The parts take up the whole dump. -/
theorem flatMap_lexemes (quote : Option UInt8) (bytes : List UInt8) :
    (lexemes quote bytes).flatMap Lexeme.bytes = bytes := by
  fun_induction lexemes quote bytes with
  | case1 => rfl
  | case2 => rfl
  | case3 => simp_all [Lexeme.bytes]
  | case4 => simp_all [Lexeme.bytes]
  | case5 => simp_all [Lexeme.bytes]
  | case6 b bytes hquote hline ih =>
    rw [List.flatMap_cons, ih, Lexeme.bytes, List.cons_append, splitLine_append]
  | case7 b bytes hquote hline hblock ih =>
    obtain ⟨-, hbytes⟩ := exists_of_head? hblock
    rw [List.flatMap_cons, ih, Lexeme.bytes, List.cons_append, List.cons_append, splitBlock_append,
      ← hbytes]
  | case8 => simp_all [Lexeme.bytes]

/-- What is left of a part when comments are erased: a byte, and whether it is code. -/
structure Mark where
  byte : UInt8
  isCode : Bool
  deriving DecidableEq

/-- A comment leaves one blank: the line feed that ends it, or else a space. -/
def Lexeme.mark : Lexeme → Mark
  | .code b => ⟨b, true⟩
  | .quoted b => ⟨b, false⟩
  | .lineComment _ => ⟨0x0A, false⟩
  | .blockComment _ => ⟨0x20, false⟩

/-- A delimiter all of whose bytes are code. -/
def codes (d : List UInt8) : List Mark := d.map (⟨·, true⟩)

@[simp] theorem map_byte_codes (d : List UInt8) : (codes d).map Mark.byte = d := by
  simp [codes, Function.comp_def]

/-- Cuts at the leftmost occurrences of the delimiter that are code throughout and do not
overlap. -/
def pieces (d : List UInt8) : List Mark → List (List UInt8)
  | [] => [[]]
  | m :: marks =>
      if (codes d).isPrefixOf (m :: marks) then [] :: pieces d (marks.drop (d.length - 1))
      else (pieces d marks).modifyHead (m.byte :: ·)
termination_by marks => marks.length
decreasing_by
  · simp only [List.length_drop, List.length_cons]; omega
  · simp

theorem pieces_eq_singleton {d : List UInt8} {marks : List Mark} (h : ¬ codes d <:+: marks) :
    pieces d marks = [marks.map Mark.byte] := by
  induction marks with
  | nil => rw [pieces, List.map_nil]
  | cons m marks ih =>
    have hbelow : ¬ (codes d).isPrefixOf (m :: marks) = true := by
      rw [List.isPrefixOf_iff_prefix]
      exact fun hp => h hp.isInfix
    rw [pieces, if_neg hbelow, ih fun hi => h (hi.trans (List.infix_cons (List.infix_refl _)))]
    rfl

theorem pieces_append {d : List UInt8} (hd : d ≠ []) {marks : List Mark}
    (h : ¬ codes d <:+: (marks ++ codes d).dropLast) (rest : List Mark) :
    pieces d (marks ++ codes d ++ rest) = marks.map Mark.byte :: pieces d rest := by
  induction marks with
  | nil =>
    obtain ⟨b, d, rfl⟩ := List.exists_cons_of_ne_nil hd
    have hbelow : (codes (b :: d)).isPrefixOf (⟨b, true⟩ :: (codes d ++ rest)) = true := by
      rw [List.isPrefixOf_iff_prefix]
      exact ⟨rest, rfl⟩
    have hdrop : (codes d ++ rest).drop ((b :: d).length - 1) = rest := by
      have hlength : (b :: d).length - 1 = (codes d).length := by simp [codes]
      rw [hlength, List.drop_left]
    show pieces (b :: d) (⟨b, true⟩ :: (codes d ++ rest)) = _
    rw [pieces, if_pos hbelow, hdrop]
    rfl
  | cons m marks ih =>
    have hne : marks ++ codes d ≠ [] := by simp [codes, hd]
    rw [List.cons_append, List.dropLast_cons_of_ne_nil hne] at h
    have hbelow : ¬ (codes d).isPrefixOf (m :: (marks ++ codes d ++ rest)) = true := by
      rw [List.isPrefixOf_iff_prefix]
      intro hp
      -- The occurrence would end before the last byte of the delimiter that stands behind.
      have hshort : codes d <+: m :: (marks ++ codes d).dropLast := by
        apply List.prefix_of_prefix_length_le hp
        · refine ⟨(marks ++ codes d).getLast hne :: rest, ?_⟩
          rw [List.cons_append, List.append_cons, List.dropLast_append_getLast]
        · simp only [codes, List.length_map, List.length_cons, List.length_dropLast,
            List.length_append]
          omega
      exact h hshort.isInfix
    have hrest := ih fun hi => h (hi.trans (List.infix_cons (List.infix_refl _)))
    show pieces d (m :: (marks ++ codes d ++ rest)) = _
    rw [pieces, if_neg hbelow, hrest]
    rfl

open Text Text.Utf8

/-- A comment ends with a line feed, or it ends the dump. -/
theorem splitLine_cases (bytes : List UInt8) :
    (∃ line, (splitLine bytes).1 = line ++ [0x0A]) ∨ (splitLine bytes).2 = [] := by
  induction bytes with
  | nil => exact .inr rfl
  | cons b bytes ih =>
    simp only [splitLine]
    split
    · next h => exact .inl ⟨[], by simpa using h⟩
    · rcases ih with ⟨line, hline⟩ | hrest
      · exact .inl ⟨b :: line, by simp [hline]⟩
      · exact .inr hrest

theorem splitBlock_cases (bytes : List UInt8) :
    (∃ block, (splitBlock bytes).1 = block ++ [0x2F]) ∨ (splitBlock bytes).2 = [] := by
  induction bytes with
  | nil => exact .inr rfl
  | cons b bytes ih =>
    simp only [splitBlock]
    split
    · exact .inl ⟨[b], rfl⟩
    · rcases ih with ⟨block, hblock⟩ | hrest
      · exact .inl ⟨b :: block, by simp [hblock]⟩
      · exact .inr hrest

/-- Putting a blank in the place of a comment leaves a text a text. -/
theorem isText_replace {front comment rest : List UInt8} {first last blank : UInt8}
    (h : IsText (front ++ first :: (comment ++ rest))) (hfirst : first < 0x80) (hlast : last < 0x80)
    (hblank : blank < 0x80) (hend : (∃ body, comment = body ++ [last]) ∨ rest = []) :
    IsText (front ++ [blank] ++ rest) := by
  obtain ⟨hfront, hbehind⟩ := h.cut_ascii hfirst
  refine (hfront.append (isText_singleton hblank)).append ?_
  rcases hend with ⟨body, rfl⟩ | rfl
  · rw [List.append_assoc] at hbehind
    exact (hbehind.cut_ascii hlast).2
  · exact isText_nil

theorem isText_marks {front : List UInt8} {quote : Option UInt8} {bytes : List UInt8}
    (h : IsText (front ++ bytes)) :
    IsText (front ++ ((lexemes quote bytes).map Lexeme.mark).map Mark.byte) := by
  fun_induction lexemes quote bytes generalizing front with
  | case1 => simpa using h
  | case2 => simpa [Lexeme.mark] using h
  | case3 b q hb c bytes ih =>
    have hrest := @ih (front ++ [b, c]) (by simpa using h)
    simpa [Lexeme.mark] using hrest
  | case4 b bytes q hb ih =>
    have hrest := @ih (front ++ [b]) (by simpa using h)
    simpa [Lexeme.mark] using hrest
  | case5 b bytes hb ih =>
    have hrest := @ih (front ++ [b]) (by simpa using h)
    simpa [Lexeme.mark] using hrest
  | case6 b bytes hb hline ih =>
    have hfirst : b < 0x80 := by
      simp only [Bool.or_eq_true, Bool.and_eq_true, beq_iff_eq] at hline
      rcases hline with rfl | ⟨rfl, -⟩ <;> decide
    have hrest := @ih (front ++ [0x0A]) (isText_replace
      (by rw [splitLine_append]; exact h) hfirst (by decide) (by decide) (splitLine_cases bytes))
    simpa [Lexeme.mark] using hrest
  | case7 b bytes hb hline hblock ih =>
    obtain ⟨hb, hbytes⟩ := exists_of_head? hblock
    rw [beq_iff_eq] at hb
    subst hb
    have hend : (∃ body, 0x2A :: (splitBlock bytes.tail).1 = body ++ [0x2F]) ∨
        (splitBlock bytes.tail).2 = [] := by
      rcases splitBlock_cases bytes.tail with ⟨block, hclosed⟩ | hrest
      · exact .inl ⟨0x2A :: block, by rw [hclosed, List.cons_append]⟩
      · exact .inr hrest
    have hrest := @ih (front ++ [0x20]) (isText_replace
      (by rw [List.cons_append, splitBlock_append, ← hbytes]; exact h)
      (by decide) (by decide) (by decide) hend)
    simpa [Lexeme.mark] using hrest
  | case8 b bytes hb hline hblock ih =>
    have hrest := @ih (front ++ [b]) (by simpa using h)
    simpa [Lexeme.mark] using hrest

theorem modifyHead_nil_append (ps : List (List UInt8)) : ps.modifyHead ([] ++ ·) = ps := by
  cases ps <;> rfl

theorem isText_of_mem_modifyHead {front : List UInt8} {d : String} {marks : List Mark}
    (hd : d ≠ "") (h : IsText (front ++ marks.map Mark.byte)) :
    ∀ p ∈ (pieces (encode d) marks).modifyHead (front ++ ·), IsText p := by
  fun_induction pieces (encode d) marks generalizing front with
  | case1 => simpa using h
  | case2 m marks hbelow ih =>
    rw [List.isPrefixOf_iff_prefix] at hbelow
    obtain ⟨rest, hrest⟩ := hbelow
    obtain ⟨b, tail, hb⟩ := List.exists_cons_of_ne_nil (mt encode_eq_nil.mp hd)
    have hmarks : marks.drop ((encode d).length - 1) = rest := by
      rw [hb, codes, List.map_cons, List.cons_append, List.cons.injEq] at hrest
      rw [← hrest.2, hb]
      simp
    have hbytes : (m :: marks).map Mark.byte = encode d ++ rest.map Mark.byte := by
      rw [← hrest, List.map_append, map_byte_codes]
    rw [hbytes, ← List.append_assoc] at h
    obtain ⟨hfront, hbehind⟩ := h.cut hd
    have hlater := @ih [] (by rw [hmarks]; exact hbehind)
    rw [List.modifyHead_cons, List.append_nil]
    intro p hp
    rcases List.mem_cons.mp hp with rfl | hp
    · exact hfront
    · exact hlater p (by rwa [modifyHead_nil_append])
  | case3 m marks hbelow ih =>
    have hlater := @ih (front ++ [m.byte]) (by simpa using h)
    simpa [List.modifyHead_modifyHead, Function.comp_def] using hlater

/-- The pieces between delimiters in a text are texts. -/
theorem isText_of_mem_pieces {d : String} {marks : List Mark} (hd : d ≠ "")
    (h : IsText (marks.map Mark.byte)) : ∀ p ∈ pieces (encode d) marks, IsText p := by
  have hall := @isText_of_mem_modifyHead [] d marks hd h
  rwa [modifyHead_nil_append] at hall

/-- The statement in a piece, unless it is blank. -/
def sqlOf (piece : List UInt8) : Option String :=
  (decode? piece).bind fun text => if (trim text).isEmpty then none else some (trim text)

theorem sqlOf_encode (text : String) :
    sqlOf (encode text) = if (trim text).isEmpty then none else some (trim text) := by
  rw [sqlOf, decode?_encode, Option.bind_some]

theorem sqlOf_dropWhile {piece : List UInt8} (h : IsText piece) :
    sqlOf (piece.dropWhile isAsciiBlank) = sqlOf piece := by
  obtain ⟨text, rfl⟩ := h
  have htrim : trim (String.ofList (text.toList.dropWhile isAsciiBlankChar)) = trim text := by
    rw [trim, trim, String.toList_ofList, trimChars, trimStartChars_dropWhile, trimChars]
  have hbytes := dropWhile_encode text.toList
  rw [String.ofList_toList] at hbytes
  rw [hbytes, sqlOf_encode, sqlOf_encode, htrim]

theorem sqlOf_concat {piece : List UInt8} (h : IsText piece) {c : Char}
    (hc : isAsciiBlankChar c = true) (hlt : c.toNat < 128) :
    sqlOf (piece ++ [UInt8.ofNat c.toNat]) = sqlOf piece := by
  obtain ⟨text, rfl⟩ := h
  have htrim : trim (text ++ String.ofList [c]) = trim text := by
    rw [trim, trim, String.toList_append, String.toList_ofList,
      trimChars_concat (isBlank_of_isAsciiBlankChar hc)]
  have hbytes : encode text ++ [UInt8.ofNat c.toNat] = encode (text ++ String.ofList [c]) := by
    rw [encode_append, encode_ofList, List.flatMap_singleton, encodeChar_of_lt hlt]
  rw [hbytes, sqlOf_encode, sqlOf_encode, htrim]

end SqlBackup.Scan
