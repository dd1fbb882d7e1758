import Mathlib
import SqlBackup.Load.Rename
import SqlBackup.Sql.Statements

/-!
# Which databases a rename passes over

The statements that create or use a database write its name in backticks. Which of them a rename
from another database passes over is told here exactly: those of that database, if its name has no
backtick, but also those of some others.
-/
namespace SqlBackup

namespace Text

/-- Two texts that are the same but for case. -/
def SameLetters (s t : List Char) : Prop := List.Forall₂ (fun c d => sameLetter c d = true) s t

theorem sameLetters_refl (s : List Char) : SameLetters s s :=
  List.forall₂_same.mpr fun c _ => sameLetter_refl c

/-- No other character is folded to a backtick. -/
theorem sameLetter_backtick {c : Char} : sameLetter '\x60' c = true ↔ c = '\x60' := by
  have hruns : ∀ r ∈ foldRuns,
      (r.last : Int) + r.distance < 0x60 ∨ 0x60 < r.first + r.distance := by decide +kernel
  have hself : foldCase '\x60' = '\x60' := by decide +kernel
  constructor
  · intro h
    rw [sameLetter, hself, beq_iff_eq, eq_comm, foldCase] at h
    split at h
    · exact h
    · next r hr =>
      have hn := congrArg Char.toNat h
      rw [Char.toNat_ofNat] at hn
      have hholds := List.find?_some hr
      simp only [FoldRun.holds, Bool.and_eq_true, decide_eq_true_eq] at hholds
      have hrun := hruns r (List.mem_of_find?_eq_some hr)
      have hbacktick : '\x60'.toNat = 0x60 := rfl
      rw [hbacktick] at hn
      split at hn <;> omega
  · rintro rfl
    exact sameLetter_refl _

/-- Only a text with a backtick differs in case from one. -/
theorem SameLetters.backtick_mem {s t : List Char} (h : SameLetters s t) :
    '\x60' ∈ t ↔ '\x60' ∈ s := by
  induction h with
  | nil => simp
  | @cons c d s t hcd _ ih =>
    have hhead : d = '\x60' ↔ c = '\x60' := by
      constructor
      · rintro rfl
        exact sameLetter_backtick.mp (sameLetter_comm c _ ▸ hcd)
      · rintro rfl
        exact sameLetter_backtick.mp hcd
    rw [List.mem_cons, List.mem_cons, ih, eq_comm, hhead, eq_comm]

end Text

namespace Load.Rename

open Sql (nameChar_backtick nameChar_of_ne)
open Text

/-! ### The rests behind each part -/

variable {p q : Part} {text rest : List Char}

@[simp] theorem mem_followedBy :
    rest ∈ followedBy p q text ↔ ∃ between ∈ p text, rest ∈ q between := List.mem_flatMap

@[simp] theorem mem_optional : rest ∈ optional p text ↔ rest = text ∨ rest ∈ p text :=
  List.mem_cons

theorem mem_word {cs : List Char} :
    rest ∈ word cs text ↔ ∃ w, text = w ++ rest ∧ SameLetters cs w := by
  induction cs generalizing text with
  | nil =>
    rw [word, List.mem_singleton]
    constructor
    · rintro rfl
      exact ⟨[], rfl, .nil⟩
    · rintro ⟨w, rfl, hw⟩
      rw [List.forall₂_nil_left_iff.mp hw, List.nil_append]
  | cons c cs ih =>
    cases text with
    | nil => simp [word, SameLetters]
    | cons d text =>
      rw [word]
      split
      · next hcd =>
        rw [ih]
        constructor
        · rintro ⟨w, rfl, hw⟩
          exact ⟨d :: w, rfl, .cons hcd hw⟩
        · rintro ⟨_, htext, hall⟩
          obtain ⟨e, w, hce, hw, rfl⟩ := List.forall₂_cons_left_iff.mp hall
          cases htext
          exact ⟨w, rfl, hw⟩
      · next hcd =>
        simp only [List.not_mem_nil, false_iff]
        rintro ⟨_, htext, hall⟩
        obtain ⟨e, w, hce, hw, rfl⟩ := List.forall₂_cons_left_iff.mp hall
        cases htext
        exact hcd hce

theorem mem_quoteMark : rest ∈ quoteMark text ↔ text = '\x60' :: rest ∨ text = '"' :: rest := by
  cases text with
  | nil => simp [quoteMark]
  | cons d text =>
    simp only [quoteMark, List.cons.injEq]
    split
    · next hd =>
      simp only [Bool.or_eq_true, beq_iff_eq] at hd
      rw [List.mem_singleton, ← or_and_right, and_iff_right hd, eq_comm]
    · next hd =>
      simp only [Bool.or_eq_true, beq_iff_eq] at hd
      rw [← or_and_right]
      simp [hd]

theorem mem_quoteMark_backtick : rest ∈ quoteMark ('\x60' :: text) ↔ rest = text := by
  rw [mem_quoteMark]
  simp [eq_comm]

/-! ### A name in backticks -/

/-- What may follow on a name for the filter to take it for the whole: nothing, or something behind
a blank, in front of which a quotation mark may stand. -/
def isTrail : List Char → Bool
  | [] => true
  | [c] => isBlank c
  | c :: d :: _ => isBlank c || (c == '"' && isBlank d)

/-- A name can end here, or behind a mark. -/
def endsHere (text : List Char) : Bool := (optional quoteMark text).any standsAlone

theorem endsHere_cons (c : Char) (text : List Char) :
    endsHere (c :: text) =
      (isBlank c || ((c == '\x60' || c == '"') && standsAlone text)) := by
  rw [endsHere, optional, List.any_cons, standsAlone, quoteMark]
  split
  · next hc => rw [hc, List.any_cons, List.any_nil, Bool.or_false, Bool.true_and]
  · next hc => rw [Bool.eq_false_of_not_eq_true hc, List.any_nil, Bool.false_and]

theorem any_quotedName {name : String} :
    (quotedName name text).any standsAlone = true ↔
      ∃ start ∈ optional quoteMark text, ∃ w rest, start = w ++ rest ∧
        SameLetters name.toList w ∧ endsHere rest = true := by
  simp only [quotedName, endsHere, List.any_eq_true, mem_followedBy, mem_word]
  constructor
  · rintro ⟨rest, ⟨start, hstart, between, ⟨w, hw, hletters⟩, hrest⟩, hends⟩
    exact ⟨start, hstart, w, between, hw, hletters, rest, hrest, hends⟩
  · rintro ⟨start, hstart, w, between, hw, hletters, rest, hrest, hends⟩
    exact ⟨rest, ⟨start, hstart, between, ⟨w, hw, hletters⟩, hrest⟩, hends⟩

/-- A text without backticks in front of the name of a database is the front of that name. -/
theorem exists_of_nameChars {m w tail : List Char} (hw : '\x60' ∉ w)
    (h : m.flatMap Sql.nameChar ++ '\x60' :: tail = w ++ rest) :
    ∃ behind, m = w ++ behind ∧ rest = behind.flatMap Sql.nameChar ++ '\x60' :: tail := by
  induction w generalizing m with
  | nil => exact ⟨m, rfl, h.symm⟩
  | cons c w ih =>
    rw [List.mem_cons, not_or] at hw
    cases m with
    | nil => exact (hw.1 (List.cons.inj h).1).elim
    | cons d m =>
      rw [List.flatMap_cons] at h
      by_cases hd : d = '\x60'
      · rw [hd, nameChar_backtick] at h
        exact (hw.1 (List.cons.inj h).1).elim
      · rw [nameChar_of_ne hd] at h
        obtain ⟨rfl, hrest⟩ := List.cons.inj h
        obtain ⟨behind, rfl, hbehind⟩ := ih hw.2 hrest
        exact ⟨behind, rfl, hbehind⟩

theorem flatMap_nameChar {cs : List Char} (h : '\x60' ∉ cs) : cs.flatMap Sql.nameChar = cs := by
  induction cs with
  | nil => rfl
  | cons c cs ih =>
    rw [List.mem_cons, not_or] at h
    rw [List.flatMap_cons, ih h.2, nameChar_of_ne (Ne.symm h.1), List.singleton_append]

theorem standsAlone_nameChars (d : Char) (text : List Char) :
    standsAlone (Sql.nameChar d ++ text) = isBlank d := by
  by_cases hd : d = '\x60'
  · rw [hd, nameChar_backtick]
    rfl
  · rw [nameChar_of_ne hd]
    rfl

theorem endsHere_nameChars {behind tail : List Char} (htail : standsAlone tail = true) :
    endsHere (behind.flatMap Sql.nameChar ++ '\x60' :: tail) = isTrail behind := by
  have hbacktick : isBlank '\x60' = false := by decide
  cases behind with
  | nil => rw [List.flatMap_nil, List.nil_append, endsHere_cons, htail, hbacktick]; rfl
  | cons c behind =>
    rw [List.flatMap_cons, List.append_assoc]
    by_cases hc : c = '\x60'
    · subst hc
      rw [nameChar_backtick, List.cons_append, endsHere_cons]
      cases behind <;> simp [isTrail, standsAlone, hbacktick]
    · rw [nameChar_of_ne hc, List.singleton_append, endsHere_cons, beq_eq_false_iff_ne.mpr hc,
        Bool.false_or]
      cases behind with
      | nil => simp [isTrail, standsAlone, hbacktick]
      | cons d behind =>
        rw [List.flatMap_cons, List.append_assoc, standsAlone_nameChars]
        rfl

/-- The names that the filter of a database takes for its own. -/
def Resembles (name other : List Char) : Prop :=
  ∃ front behind, other = front ++ behind ∧ SameLetters name front ∧ isTrail behind = true

/-- A name without backticks is found in backticks if it resembles what stands there. -/
theorem any_quotedName_nameChars {name : String} {other tail : List Char} (hne : name ≠ "")
    (hname : '\x60' ∉ name.toList) (htail : standsAlone tail = true) :
    (quotedName name ('\x60' :: (other.flatMap Sql.nameChar ++ '\x60' :: tail))).any
      standsAlone = true ↔ Resembles name.toList other := by
  rw [any_quotedName]
  constructor
  · rintro ⟨start, hstart, w, rest, hw, hletters, hends⟩
    have hfree : '\x60' ∉ w := hletters.backtick_mem.not.mpr hname
    rcases mem_optional.mp hstart with rfl | hmark
    · cases w with
      | nil =>
        have hnil := List.forall₂_nil_right_iff.mp hletters
        exact (hne (String.toList_eq_nil_iff.mp hnil)).elim
      | cons c w =>
        rw [(List.cons.inj hw).1] at hfree
        exact (hfree List.mem_cons_self).elim
    · obtain rfl := mem_quoteMark_backtick.mp hmark
      obtain ⟨behind, rfl, rfl⟩ := exists_of_nameChars hfree hw
      rw [endsHere_nameChars htail] at hends
      exact ⟨w, behind, rfl, hletters, hends⟩
  · rintro ⟨front, behind, rfl, hletters, hends⟩
    have hfree : '\x60' ∉ front := hletters.backtick_mem.not.mpr hname
    refine ⟨_, mem_optional.mpr (.inr (mem_quoteMark_backtick.mpr rfl)), front, _, ?_, hletters,
      (endsHere_nameChars htail).trans hends⟩
    rw [List.flatMap_append, flatMap_nameChar hfree, List.append_assoc]

/-! ### The statements -/

theorem differ : sameLetter 'C' 'U' = false ∧ sameLetter 'U' 'C' = false ∧
    sameLetter 'S' 'D' = false := by decide +kernel

theorem blanks_space {c : Char} (hc : isBlank c = false) (text : List Char) :
    blanks (' ' :: c :: text) = [c :: text] := by
  have hspace : isBlank ' ' = true := by decide
  rw [blanks, if_pos hspace, blanks, if_neg (by simp [hc])]

/-- What stands behind the verb of the statement that uses a database. -/
theorem verb_use (text : List Char) : verb ("USE ".toList ++ text) = [' ' :: text] := by
  simp [verb, either, followedBy, word, differ]

/-- The statement that creates a database has its name behind more keywords, which the pattern can
also take for the name. -/
theorem verb_create (text : List Char) :
    verb ("CREATE DATABASE IF NOT EXISTS ".toList ++ text) =
      [" IF NOT EXISTS ".toList ++ text, ' ' :: text] := by
  have hletters : isBlank 'D' = false ∧ isBlank 'I' = false ∧ isBlank 'N' = false ∧
      isBlank 'E' = false := by decide
  simp [verb, either, followedBy, optional, keywords, word, differ, blanks_space, hletters]

theorem names_eq {name sql : String} {text : List Char} (hsql : sql.toList = text)
    (htext : text.head?.all (!isBlank ·) = true) :
    names name sql = (verb text).any fun text =>
      (blanks text).any fun text => (quotedName name text).any standsAlone := by
  have htrim : trimStartChars text = text := by
    cases text with
    | nil => rfl
    | cons c text => rw [trimStartChars, List.dropWhile_cons_of_neg (by simpa using htext)]
  rw [names, hsql, htrim, followedBy, List.any_flatMap]
  congr 1
  funext text
  rw [followedBy, List.any_flatMap]

/-- The name of a database in backticks, as it ends a statement, and what else there is. -/
def quotedEnd (other tail : String) : List Char :=
  '\x60' :: (other.toList.flatMap Sql.nameChar ++ '\x60' :: tail.toList)

theorem toList_quoteName (other tail : String) :
    (Sql.quoteName other ++ tail).toList = quotedEnd other tail := by
  simp [Sql.quoteName, quotedEnd]

theorem blanks_quotedEnd (other tail : String) :
    blanks (' ' :: quotedEnd other tail) = [quotedEnd other tail] :=
  blanks_space (by decide) _

theorem names_useDatabase (name other tail : String) :
    names name (Sql.useDatabase other ++ tail) =
      (quotedName name (quotedEnd other tail)).any standsAlone := by
  have hsql : (Sql.useDatabase other ++ tail).toList = "USE ".toList ++ quotedEnd other tail := by
    rw [Sql.useDatabase, String.append_assoc, String.toList_append, toList_quoteName]
  rw [names_eq hsql rfl, verb_use, List.any_cons, List.any_nil, Bool.or_false,
    blanks_quotedEnd, List.any_cons, List.any_nil, Bool.or_false]

theorem names_createDatabase (name other tail : String) :
    names name (Sql.createDatabase other ++ tail) =
      ((quotedName name ("IF NOT EXISTS ".toList ++ quotedEnd other tail)).any standsAlone ||
        (quotedName name (quotedEnd other tail)).any standsAlone) := by
  have hsplit : Sql.createDatabase other ++ tail =
      "CREATE DATABASE IF NOT EXISTS " ++ (Sql.quoteName other ++ tail) := String.append_assoc
  have hsql : (Sql.createDatabase other ++ tail).toList =
      "CREATE DATABASE IF NOT EXISTS ".toList ++ quotedEnd other tail :=
    (congrArg String.toList hsplit).trans
      (String.toList_append.trans (congrArg _ (toList_quoteName other tail)))
  have hblanks : blanks (" IF NOT EXISTS ".toList ++ quotedEnd other tail) =
      ["IF NOT EXISTS ".toList ++ quotedEnd other tail] := by
    have hspace : " IF NOT EXISTS ".toList = ' ' :: 'I' :: "F NOT EXISTS ".toList := by decide
    have hletter : "IF NOT EXISTS ".toList = 'I' :: "F NOT EXISTS ".toList := by decide
    rw [hspace, hletter]
    exact blanks_space (by decide) _
  have hhead : isBlank 'C' = false := by decide
  rw [names_eq hsql (by simp [hhead]), verb_create, List.any_cons, List.any_cons, List.any_nil,
    Bool.or_false, hblanks, blanks_quotedEnd, List.any_cons, List.any_nil, Bool.or_false,
    List.any_cons, List.any_nil, Bool.or_false]

/-- The names that the keywords in front of a name are taken for. With a blank at its end, the name
behind the keywords must go on with one. -/
def IsKeywords (name other : List Char) : Prop :=
  (∃ keywords ∈ ["IF", "IF NOT", "IF NOT EXISTS"], SameLetters name keywords.toList) ∨
    SameLetters name "IF NOT EXISTS ".toList ∧ other.head?.any isBlank = true

/-- A text without backticks in front of one ends in front of it. -/
theorem exists_of_backtick {front w tail : List Char} (hw : '\x60' ∉ w)
    (h : front ++ '\x60' :: tail = w ++ rest) :
    ∃ behind, front = w ++ behind ∧ rest = behind ++ '\x60' :: tail := by
  rcases List.append_eq_append_iff.mp h with ⟨between, rfl, hrest⟩ | ⟨behind, rfl, rfl⟩
  · cases between with
    | nil => exact ⟨[], by simp, hrest.symm⟩
    | cons c between =>
      obtain ⟨rfl, -⟩ := List.cons.inj hrest
      exact (hw (by simp)).elim
  · exact ⟨behind, rfl, rfl⟩

theorem endsHere_quotedEnd (other tail : String) :
    endsHere (quotedEnd other tail) = other.toList.head?.any isBlank := by
  have hbacktick : isBlank '\x60' = false := by decide
  rw [quotedEnd, endsHere_cons, hbacktick]
  cases other.toList with
  | nil => simp [standsAlone, hbacktick]
  | cons c cs =>
    rw [List.flatMap_cons, List.append_assoc, standsAlone_nameChars]
    rfl

/-- Between the keywords in front of a name there are three places where a name can end. -/
theorem mem_keywords_of_blank : ∀ n < "IF NOT EXISTS ".toList.length,
    ("IF NOT EXISTS ".toList[n]?).any isBlank = true →
      "IF NOT EXISTS ".toList.take n ∈ ["IF", "IF NOT", "IF NOT EXISTS"].map String.toList := by
  decide

theorem exists_of_mem_keywords : ∀ keywords ∈ ["IF", "IF NOT", "IF NOT EXISTS"],
    "IF NOT EXISTS ".toList = keywords.toList ++
      ' ' :: "IF NOT EXISTS ".toList.drop (keywords.toList.length + 1) := by
  decide

theorem any_quotedName_keywords {name other tail : String} (hname : '\x60' ∉ name.toList) :
    (quotedName name ("IF NOT EXISTS ".toList ++ quotedEnd other tail)).any standsAlone = true ↔
      IsKeywords name.toList other.toList := by
  have hmarks : '\x60' ∉ "IF NOT EXISTS ".toList ∧ '"' ∉ "IF NOT EXISTS ".toList := by decide
  rw [any_quotedName]
  constructor
  · rintro ⟨start, hstart, w, rest, hw, hletters, hends⟩
    have hfree : '\x60' ∉ w := hletters.backtick_mem.not.mpr hname
    have hstart : start = "IF NOT EXISTS ".toList ++ quotedEnd other tail := by
      refine (mem_optional.mp hstart).resolve_right fun hmark => ?_
      have hletter : "IF NOT EXISTS ".toList = 'I' :: "F NOT EXISTS ".toList := by decide
      rw [hletter, List.cons_append] at hmark
      rcases mem_quoteMark.mp hmark with h | h
      · exact absurd (List.cons.inj h).1 (by decide)
      · exact absurd (List.cons.inj h).1 (by decide)
    obtain ⟨behind, hsplit, rfl⟩ := exists_of_backtick hfree (hstart.symm.trans hw)
    cases behind with
    | nil =>
      rw [List.append_nil] at hsplit
      rw [List.nil_append, ← quotedEnd, endsHere_quotedEnd] at hends
      exact .inr ⟨hsplit ▸ hletters, hends⟩
    | cons c behind =>
      have hc : c ∈ "IF NOT EXISTS ".toList := by rw [hsplit]; simp
      have hmark : (c == '\x60' || c == '"') = false := by
        rw [Bool.or_eq_false_iff, beq_eq_false_iff_ne, beq_eq_false_iff_ne]
        exact ⟨fun h => hmarks.1 (h ▸ hc), fun h => hmarks.2 (h ▸ hc)⟩
      rw [List.cons_append, endsHere_cons, hmark, Bool.false_and, Bool.or_false] at hends
      have hplace := mem_keywords_of_blank w.length
      rw [hsplit, List.getElem?_append_right le_rfl, Nat.sub_self, List.take_left' rfl,
        List.mem_map] at hplace
      obtain ⟨keywords, hmem, hkeywords⟩ := hplace (by simp) hends
      exact .inl ⟨keywords, hmem, hkeywords ▸ hletters⟩
  · rintro (⟨keywords, hmem, hletters⟩ | ⟨hletters, hblank⟩)
    · refine ⟨_, mem_optional.mpr (.inl rfl), keywords.toList,
        ' ' :: ("IF NOT EXISTS ".toList.drop (keywords.toList.length + 1) ++
          quotedEnd other tail), ?_, hletters, ?_⟩
      · conv_lhs => rw [exists_of_mem_keywords keywords hmem]
        rw [List.append_assoc, List.cons_append]
      · rw [endsHere_cons]
        rfl
    · exact ⟨_, mem_optional.mpr (.inl rfl), _, _, rfl, hletters,
        (endsHere_quotedEnd other tail).trans hblank⟩

/-! ### A name with a backtick -/

/-- Behind a backtick a name is not found in its own quotation: each of its characters would have to
be a backtick, and of those the quotation has more. -/
theorem endsHere_of_backticks {cs w : List Char} {n : Nat} (hletters : SameLetters cs w)
    (h : List.replicate (n + 1) '\x60' ++ (cs.flatMap Sql.nameChar ++ '\x60' :: text) =
      w ++ rest) : endsHere rest = false := by
  have hbacktick : isBlank '\x60' = false := by decide
  induction cs generalizing n w with
  | nil =>
    obtain rfl := List.forall₂_nil_left_iff.mp hletters
    rw [List.nil_append, List.replicate_succ, List.cons_append, List.flatMap_nil,
      List.nil_append] at h
    rw [← h, endsHere_cons, hbacktick]
    cases n <;> simp [List.replicate_succ, standsAlone, hbacktick]
  | cons c cs ih =>
    obtain ⟨d, w, hcd, hrest, rfl⟩ := List.forall₂_cons_left_iff.mp hletters
    rw [List.replicate_succ, List.cons_append, List.cons_append] at h
    obtain ⟨rfl, hbehind⟩ := List.cons.inj h
    obtain rfl := sameLetter_backtick.mp (sameLetter_comm c _ ▸ hcd)
    refine ih (n := n + 1) hrest ?_
    rw [← hbehind, List.flatMap_cons, nameChar_backtick, List.replicate_succ', List.replicate_succ']
    simp

theorem endsHere_of_mem {cs w : List Char} (hmem : '\x60' ∈ cs) (hletters : SameLetters cs w)
    (h : cs.flatMap Sql.nameChar ++ '\x60' :: text = w ++ rest) : endsHere rest = false := by
  induction cs generalizing w with
  | nil => exact absurd hmem List.not_mem_nil
  | cons c cs ih =>
    obtain ⟨d, w, hcd, hrest, rfl⟩ := List.forall₂_cons_left_iff.mp hletters
    rw [List.flatMap_cons] at h
    by_cases hc : c = '\x60'
    · subst hc
      rw [nameChar_backtick] at h
      exact endsHere_of_backticks (n := 0) hrest (List.cons.inj h).2
    · rw [nameChar_of_ne hc] at h
      exact ih ((List.mem_cons.mp hmem).resolve_left (Ne.symm hc)) hrest (List.cons.inj h).2

/-- The statement that uses a database whose name has a backtick is not recognised. -/
theorem backtick_not_mem_of_names {name tail : String}
    (h : names name (Sql.useDatabase name ++ tail) = true) : '\x60' ∉ name.toList := by
  rw [names_useDatabase, any_quotedName] at h
  obtain ⟨start, hstart, w, rest, hw, hletters, hends⟩ := h
  intro hmem
  rcases mem_optional.mp hstart with rfl | hmark
  · rw [endsHere_of_backticks (n := 0) hletters hw] at hends
    cases hends
  · obtain rfl := mem_quoteMark_backtick.mp hmark
    rw [endsHere_of_mem hmem hletters hw] at hends
    cases hends

end Load.Rename

end SqlBackup
