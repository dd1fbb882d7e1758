import SqlBackup.Dump.Piece
import SqlBackup.Proofs.Scan.Lines

/-!
# Comment lines of a dump

A scanner passes over a line of a dump that is blank or a comment. Such a line opens with two dashes
and ends at its first line feed.
-/
namespace SqlBackup.Dump

open Scan Text Text.Utf8

variable {settings : Settings} {d : Delimiter} {position start : Nat} {rest : List UInt8}

/-- Neither blanks nor the keyword start with what is neither a blank nor a letter. -/
theorem not_keyword_prefix {blanks keyword cs : List Char} {blank c : Char}
    (hblanks : ∀ c ∈ blanks, isBlank c = true)
    (hkeyword : sameWord keyword "delimiter".toList = true) (hblank : isBlank c = false)
    (hletter : c.toNat < 65) : ¬ blanks ++ keyword ++ [blank] <+: c :: cs := by
  rintro ⟨behind, hbehind⟩
  cases blanks with
  | nil =>
    cases keyword with
    | nil => simp [sameWord] at hkeyword
    | cons k keyword =>
      rw [List.nil_append, List.append_assoc, List.cons_append, List.cons.injEq] at hbehind
      have := (toNat_of_sameWord hkeyword List.mem_cons_self).1
      rw [hbehind.1] at this
      omega
  | cons b blanks =>
    rw [List.append_assoc, List.append_assoc, List.cons_append, List.cons.injEq] at hbehind
    have := hblanks b List.mem_cons_self
    rw [hbehind.1, hblank] at this
    cases this

/-- No directive starts with what is neither a blank nor a letter. -/
theorem directive?_cut_eq_none {n : Nat} {c : Char} {cs : List Char} (hblank : isBlank c = false)
    (hletter : c.toNat < 65) :
    directive? (Chunk.cut n (encode (String.ofList (c :: cs)))).bytes = none := by
  rw [← Option.not_isSome_iff_eq_none, Option.isSome_iff_exists]
  rintro ⟨d, hd⟩
  obtain ⟨blanks, keyword, blank, hblanks, hkeyword, -, hfront, -⟩ := exists_of_directive?_cut hd
  exact not_keyword_prefix hblanks hkeyword hblank hletter hfront

/-- Nor do bytes behind it make it one, whether they are text or not. -/
theorem directive?_cons_eq_none {c : Char} (hblank : isBlank c = false) (hletter : c.toNat < 65)
    (bytes : List UInt8) : directive? (UInt8.ofNat c.toNat :: bytes) = none := by
  unfold directive?
  split
  · rfl
  next text hdecode =>
  have hc : encode (String.ofList [c]) = [UInt8.ofNat c.toNat] := by
    rw [encode_ofList, List.flatMap_singleton, encodeChar_of_lt (by omega)]
  rw [decode?_eq_some_iff, ← List.singleton_append, ← hc] at hdecode
  obtain ⟨-, rest, rfl⟩ := IsText.cut (a := []) (d := String.ofList [c]) ⟨text, hdecode⟩ (by simp)
  rw [← encode_append] at hdecode
  rw [← encode_injective hdecode, Option.map_eq_none_iff, String.toList_append,
    String.toList_ofList, List.singleton_append, ← Option.not_isSome_iff_eq_none,
    Option.isSome_iff_exists]
  rintro ⟨token, htoken⟩
  obtain ⟨blanks, keyword, blank, hblanks, hkeyword, -, hfront⟩ := exists_of_directiveToken? htoken
  exact not_keyword_prefix hblanks hkeyword hblank hletter hfront

/-- A line that is a comment from its start on. -/
def IsComment (line : String) : Prop :=
  '\n' ∉ line.toList ∧ ∃ remark, line = "--" ++ remark

theorem IsComment.append {front back : String} (hfront : IsComment front)
    (hback : '\n' ∉ back.toList) : IsComment (front ++ back) := by
  obtain ⟨hfeed, remark, rfl⟩ := hfront
  refine ⟨?_, remark ++ back, String.append_assoc⟩
  rw [String.toList_append, List.mem_append, not_or]
  exact ⟨hfeed, hback⟩

/-- A line that says nothing leaves a scanner as it was, but for its position. -/
theorem transcript_line {line : String} (h : line = "" ∨ IsComment line)
    (hd : ∃ b ∈ d.bytes, b ≠ 0x2D) (hlimit : 0 < settings.limit) :
    (State.free d position start).transcript settings true ((Piece.line line).bytes ++ rest) =
      (State.free d (position + (Piece.line line).bytes.length) start).transcript settings true
        rest := by
  have hbytes : (Piece.line line).bytes = encode line ++ [0x0A] := by
    rw [Piece.bytes, Piece.text, encode_append]
    rfl
  rw [hbytes, List.append_assoc, List.singleton_append]
  rcases h with rfl | ⟨hfeed, remark, rfl⟩
  · have hblank : directive? [0x0A] = none := by decide +kernel
    rw [encode_empty]
    exact State.transcript_lineFeed hblank
  · have hremark : 0x0A ∉ encode remark := by
      refine mt (mem_encode_iff (c := '\n') (by decide)).mp fun hmem => hfeed ?_
      rw [String.toList_append]
      exact List.mem_append_right _ hmem
    have hdashes : encode ("--" ++ remark) = 0x2D :: 0x2D :: encode remark := by
      rw [encode_append]
      rfl
    have hdirective : directive? (Chunk.cut (settings.room + 1)
        (0x2D :: 0x2D :: (encode remark ++ 0x0A :: rest))).bytes = none := by
      have hnone := @directive?_cut_eq_none (settings.room + 1) '-'
        ('-' :: (remark.toList ++ ['\n'])) (by decide) (by decide)
      have htext : encode (String.ofList ('-' :: '-' :: (remark.toList ++ ['\n']))) =
          (0x2D :: 0x2D :: encode remark) ++ [0x0A] := by
        rw [encode_cons, encode_cons, String.ofList_append, encode_append,
          String.ofList_toList]
        rfl
      rw [htext, ← Chunk.cut_line _ _ rest] at hnone
      exact hnone
    rw [hdashes, List.cons_append, List.cons_append,
      State.transcript_dashes (Delimiter.ends_dash hd) hlimit hdirective, State.transcript_remark hremark]
    congr 2
    simp only [List.length_append, List.length_cons, List.length_nil]
    omega

/-- Lines that say nothing leave a scanner as it was, but for its position. -/
theorem transcript_lines {lines : List String} (h : ∀ line ∈ lines, line = "" ∨ IsComment line)
    (hd : ∃ b ∈ d.bytes, b ≠ 0x2D) (hlimit : 0 < settings.limit) :
    (State.free d position start).transcript settings true
        ((lines.map Piece.line).flatMap Piece.bytes ++ rest) =
      (State.free d (position + ((lines.map Piece.line).flatMap Piece.bytes).length)
        start).transcript settings true rest := by
  induction lines generalizing position with
  | nil => rfl
  | cons line lines ih =>
    obtain ⟨hline, hlines⟩ := List.forall_mem_cons.mp h
    rw [List.map_cons, List.flatMap_cons, List.append_assoc, transcript_line hline hd hlimit,
      ih hlines, List.length_append, Nat.add_assoc]

end SqlBackup.Dump
