import SqlBackup.Proofs.Scan.Transcript
import SqlBackup.Proofs.Text.Blank

/-!
# Where a directive can stand

A chunk is taken for a directive only if the line that it starts has the keyword for its first word
and a blank behind it. So text without such a line is read as it stands.
-/
namespace SqlBackup.Scan

open Text Text.Utf8

/-- Whether a line starts, behind blanks, with the keyword of a directive in any case. -/
def startsDirective (line : List Char) : Bool :=
  (words line).head?.any (sameWord · "delimiter".toList)

/-- The keyword has ASCII letters only. -/
theorem toNat_of_sameWord {keyword : List Char} (h : sameWord keyword "delimiter".toList = true)
    {c : Char} (hc : c ∈ keyword) : 65 ≤ c.toNat ∧ c.toNat ≤ 122 := by
  rw [sameWord, beq_iff_eq] at h
  have hmem : c.toLower ∈ "delimiter".toList.map Char.toLower := h ▸ List.mem_map_of_mem hc
  have hlower : 97 ≤ c.toLower.toNat ∧ c.toLower.toNat ≤ 122 := by
    have hall : ("delimiter".toList.map Char.toLower).all
        (fun x => decide (97 ≤ x.toNat ∧ x.toNat ≤ 122)) = true := by decide
    exact of_decide_eq_true (List.all_eq_true.mp hall _ hmem)
  by_cases hupper : c.val ≥ 'A'.val ∧ c.val ≤ 'Z'.val
  · have h1 : 65 ≤ c.val.toNat := hupper.1
    have h2 : c.val.toNat ≤ 90 := hupper.2
    exact ⟨h1, h2.trans (by decide)⟩
  · rw [Char.toLower, dif_neg hupper] at hlower
    exact ⟨by omega, hlower.2⟩

theorem isBlank_of_sameWord {keyword : List Char} (h : sameWord keyword "delimiter".toList = true) :
    ∀ c ∈ keyword, isBlank c = false := by
  intro c hc
  obtain ⟨hlow, hhigh⟩ := toNat_of_sameWord h hc
  have hval : c.val.toNat = c.toNat := rfl
  rw [Bool.eq_false_iff]
  intro hblank
  simp only [isBlank, Bool.or_eq_true, Bool.and_eq_true, decide_eq_true_eq, beq_iff_eq,
    UInt32.le_iff_toNat_le, ← UInt32.toNat_inj, UInt32.reduceToNat, hval] at hblank
  omega

/-- A directive starts, behind blanks, with the keyword and a blank. -/
theorem exists_of_directiveToken? {line token : List Char} (h : directiveToken? line = some token) :
    ∃ blanks keyword blank, (∀ c ∈ blanks, isBlank c = true) ∧
      sameWord keyword "delimiter".toList = true ∧ isAsciiBlankChar blank = true ∧
      blanks ++ keyword ++ [blank] <+: line := by
  unfold directiveToken? at h
  split at h
  · cases h
  next keyword rest hsplit =>
  split at h
  · next hkeyword =>
    unfold splitAtBlank at hsplit
    split at hsplit
    · cases hsplit
    next blank rest' hdrop =>
    simp only [Option.some.injEq, Prod.mk.injEq] at hsplit
    obtain ⟨rfl, rfl⟩ := hsplit
    refine ⟨line.takeWhile isBlank, _, blank, List.all_eq_true.mp List.all_takeWhile, hkeyword,
      ?_, ?_⟩
    · have hhead := List.head?_dropWhile_not (!isAsciiBlankChar ·) (trimChars line)
      rw [hdrop] at hhead
      simpa using hhead
    · have htrimmed : trimChars line <+: line.dropWhile isBlank := by
        rw [trimChars, trimEndChars, trimStartChars, ← List.reverse_suffix, List.reverse_reverse]
        exact List.dropWhile_suffix _
      have hfront : (trimChars line).takeWhile (!isAsciiBlankChar ·) ++ [blank] <+:
          trimChars line := by
        refine ⟨rest', ?_⟩
        conv_rhs => rw [← List.takeWhile_append_dropWhile (p := (!isAsciiBlankChar ·))
          (l := trimChars line), hdrop]
        simp
      conv_rhs => rw [← List.takeWhile_append_dropWhile (p := isBlank) (l := line)]
      rw [List.append_assoc]
      exact (List.prefix_append_right_inj _).mpr (hfront.trans htrimmed)
  · cases h

/-- A chunk that is a directive shows so at the front of its line. -/
theorem exists_of_directive?_cut {n : Nat} {cs : List Char} {d : Delimiter}
    (h : directive? (Chunk.cut n (encode (String.ofList cs))).bytes = some d) :
    ∃ blanks keyword blank, (∀ c ∈ blanks, isBlank c = true) ∧
      sameWord keyword "delimiter".toList = true ∧ isAsciiBlankChar blank = true ∧
      blanks ++ keyword ++ [blank] <+: cs ∧ '\n' ∉ blanks ++ keyword := by
  have hline := withinLine_cut n (encode (String.ofList cs))
  have hcut := Chunk.cut_append n (encode (String.ofList cs))
  unfold directive? at h
  split at h
  · cases h
  next text hdecode =>
  obtain ⟨token, htoken, -⟩ := Option.map_eq_some_iff.mp h
  obtain ⟨blanks, keyword, blank, hblanks, hkeyword, hblank, behind, hbehind⟩ :=
    exists_of_directiveToken? htoken
  rw [decode?_eq_some_iff] at hdecode
  rw [hdecode] at hcut hline
  have htext : text ≠ "" := by
    rintro rfl
    simp at hbehind
  obtain ⟨-, rest, hrest⟩ := IsText.cut (a := []) (d := text) ⟨_, hcut⟩ htext
  rw [hrest, ← encode_append] at hcut
  have hcs : text.toList ++ rest.toList = cs := by
    have := congrArg String.toList (encode_injective hcut)
    rwa [String.toList_append, String.toList_ofList] at this
  refine ⟨blanks, keyword, blank, hblanks, hkeyword, hblank, ?_, ?_⟩
  · exact ⟨behind ++ rest.toList, by rw [← List.append_assoc, hbehind, hcs]⟩
  · intro hfeed
    have hsplit : encode text = encode (String.ofList (blanks ++ keyword)) ++
        encode (String.ofList (blank :: behind)) := by
      rw [← encode_append, ← String.ofList_append, ← String.ofList_toList (s := text), ← hbehind]
      simp
    have hne : encode (String.ofList (blank :: behind)) ≠ [] := by simp
    rw [WithinLine, hsplit, List.dropLast_append_of_ne_nil hne, List.mem_append, not_or] at hline
    refine hline.1 ((mem_encode_iff (c := '\n') (by decide)).mpr ?_)
    rwa [String.toList_ofList]

/-- No line of these bytes sets a delimiter. `lineStart` tells whether they start a line. -/
def NoDirective (settings : Settings) : Bool → List UInt8 → Prop
  | _, [] => True
  | lineStart, b :: bytes =>
      (lineStart = true → directive? (Chunk.cut (settings.room + 1) (b :: bytes)).bytes = none) ∧
        NoDirective settings (b == 0x0A) bytes

variable {settings : Settings} {b : UInt8} {bytes : List UInt8}

theorem NoDirective.behind {lineStart : Bool} {front : List UInt8}
    (h : NoDirective settings lineStart (front ++ b :: bytes)) :
    NoDirective settings (b == 0x0A) bytes := by
  induction front generalizing lineStart with
  | nil => exact h.2
  | cons c front ih => exact ih h.2

theorem noDirective_append {front : List UInt8} (hfront : 0x0A ∉ front)
    (h : NoDirective settings false bytes) : NoDirective settings false (front ++ bytes) := by
  induction front with
  | nil => exact h
  | cons b front ih =>
    rw [List.mem_cons, not_or] at hfront
    have hb : (b == 0x0A) = false := by simpa using Ne.symm hfront.1
    refine ⟨by simp, ?_⟩
    rw [hb]
    exact ih hfront.2

theorem splitOn_lineFeed (cs : List Char) : cs.splitOn '\n' =
    cs.takeWhile (· != '\n') :: (cs.splitOn '\n').tail := by
  induction cs with
  | nil => rfl
  | cons c cs ih =>
    rw [List.splitOn, List.splitOnP_cons_eq_if_modifyHead]
    by_cases hc : c = '\n'
    · simp [hc]
    · rw [List.splitOn] at ih
      rw [if_neg (by simpa using hc), ih]
      simp [hc]

theorem not_directive_of_firstLine {n : Nat} {cs : List Char}
    (h : startsDirective (cs.takeWhile (· != '\n')) = false) :
    directive? (Chunk.cut n (encode (String.ofList cs))).bytes = none := by
  rw [← Option.not_isSome_iff_eq_none, Option.isSome_iff_exists]
  rintro ⟨d, hd⟩
  obtain ⟨blanks, keyword, blank, hblanks, hkeyword, hblank, ⟨behind, hbehind⟩, hfeed⟩ :=
    exists_of_directive?_cut hd
  have hline : cs.takeWhile (· != '\n') =
      blanks ++ keyword ++ (blank :: behind).takeWhile (· != '\n') := by
    rw [← hbehind, List.append_assoc _ [blank], List.singleton_append,
      List.takeWhile_append_of_pos]
    intro c hc
    rw [bne_iff_ne]
    rintro rfl
    exact hfeed hc
  have hne : keyword ≠ [] := by
    rintro rfl
    simp [sameWord] at hkeyword
  have hbehind' : ∀ c, ((blank :: behind).takeWhile (· != '\n')).head? = some c →
      isBlank c = true := by
    intro c hc
    rw [List.takeWhile_cons] at hc
    split at hc
    · obtain rfl : blank = c := by simpa using hc
      exact isBlank_of_isAsciiBlankChar hblank
    · simp at hc
  have hfirst := head?_words hblanks hne (isBlank_of_sameWord hkeyword) hbehind'
  rw [startsDirective, hline, hfirst, Option.any_some, hkeyword] at h
  cases h

/-- Text none of whose lines starts with the keyword sets no delimiter. -/
theorem noDirective_encode {lineStart : Bool} {cs : List Char}
    (hfirst : lineStart = true → startsDirective (cs.takeWhile (· != '\n')) = false)
    (hlines : ∀ line ∈ (cs.splitOn '\n').tail, startsDirective line = false) :
    NoDirective settings lineStart (encode (String.ofList cs)) := by
  induction cs generalizing lineStart with
  | nil => simp [NoDirective]
  | cons c cs ih =>
    have hbytes := encode_cons c cs
    obtain ⟨b, tail, hc⟩ := List.exists_cons_of_ne_nil (@String.utf8EncodeChar_ne_nil c)
    have hhere : lineStart = true →
        directive?
            (Chunk.cut (settings.room + 1) (b :: (tail ++ encode (String.ofList cs)))).bytes =
          none := by
      intro hstart
      have := not_directive_of_firstLine (n := settings.room + 1) (hfirst hstart)
      rwa [hbytes, hc] at this
    rw [List.splitOn, List.splitOnP_cons_eq_if_modifyHead, ← List.splitOn] at hlines
    by_cases hfeed : c = '\n'
    · rw [if_pos (by simpa using hfeed), List.tail_cons, splitOn_lineFeed, List.forall_mem_cons]
        at hlines
      have hsingle : b :: tail = [0x0A] := by
        rw [← hc, hfeed]
        exact encodeChar_of_lt (by decide)
      rw [List.cons.injEq] at hsingle
      obtain ⟨rfl, rfl⟩ := hsingle
      rw [hbytes, hc]
      exact ⟨hhere, ih (fun _ => hlines.1) hlines.2⟩
    · rw [if_neg (by simpa using hfeed), splitOn_lineFeed, List.modifyHead_cons, List.tail_cons]
        at hlines
      have hwithin : 0x0A ∉ b :: tail := by
        rw [← hc]
        intro hmem
        have := (mem_encode_iff (c := '\n') (by decide) (s := String.ofList [c])).mp
          (by rw [encode_ofList, List.flatMap_singleton]; exact hmem)
        simp at this
        exact hfeed this.symm
      rw [List.mem_cons, not_or] at hwithin
      have hb : (b == 0x0A) = false := by simpa using Ne.symm hwithin.1
      rw [hbytes, hc]
      refine ⟨hhere, ?_⟩
      rw [hb]
      exact noDirective_append hwithin.2 (ih (by simp) hlines)

end SqlBackup.Scan
