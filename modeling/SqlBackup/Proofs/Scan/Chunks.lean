import SqlBackup.Proofs.Scan.Lexeme
import SqlBackup.Proofs.Scan.Moves
import SqlBackup.Proofs.Scan.Resume

/-!
# Lines longer than a chunk

A scanner looks for a directive in a chunk, which is a line or the first part of a longer one. Where
no line that is longer than a chunk is a directive, by the whole of it or by its first chunk, the
chunks do not show in the results, and a directive is read as a whole. A longer directive is obeyed
by its first chunk, and the rest of the line is read as text.
-/
namespace SqlBackup

namespace Scan

/-- Every line of these bytes has this property. `lineStart` tells whether they start a line. -/
def EachLine (P : List UInt8 → Prop) : Bool → List UInt8 → Prop
  | _, [] => True
  | lineStart, b :: bytes =>
      (lineStart = true → P (splitLine (b :: bytes)).1) ∧ EachLine P (b == 0x0A) bytes

/-- A line that is no directive, by the whole of it or by its first `n` bytes, if it has more. -/
def PlainBeyond (n : Nat) (line : List UInt8) : Prop :=
  n < line.length → directive? line = none ∧ directive? (line.take n) = none

variable {P : List UInt8 → Prop} {settings : Settings} {s : State} {lineStart : Bool} {b : UInt8}
  {bytes : List UInt8}

theorem EachLine.weaken (h : EachLine P lineStart bytes) : EachLine P false bytes := by
  cases bytes with
  | nil => trivial
  | cons b bytes => exact ⟨by simp, h.2⟩

theorem EachLine.behind {front : List UInt8} (h : EachLine P lineStart (front ++ bytes))
    (hne : front ≠ []) : EachLine P (front.getLast? == some 0x0A) bytes := by
  induction front generalizing lineStart with
  | nil => exact absurd rfl hne
  | cons b front ih =>
    cases front with
    | nil => simpa [EachLine] using h.2
    | cons c front =>
      rw [List.getLast?_cons_cons]
      exact ih h.2 (by simp)

/-- A chunk is the first part of its line. -/
theorem cut_bytes (n : Nat) (bytes : List UInt8) :
    (Chunk.cut n bytes).bytes = (splitLine bytes).1.take n := by
  induction n generalizing bytes with
  | zero => simp [Chunk.cut]
  | succ n ih =>
    cases bytes with
    | nil => rfl
    | cons b bytes =>
      simp only [Chunk.cut, splitLine]
      split
      · simp
      · simp [ih]

/-- A chunk that is the whole of its line leaves the lines behind it. -/
theorem cut_rest {n : Nat} {bytes : List UInt8}
    (h : (Chunk.cut n bytes).bytes = (splitLine bytes).1) :
    (Chunk.cut n bytes).rest = (splitLine bytes).2 := by
  have hsame := (Chunk.cut_append n bytes).trans (splitLine_append bytes).symm
  rw [h] at hsame
  exact List.append_cancel_left hsame

theorem splitLine_length_le (bytes : List UInt8) : (splitLine bytes).1.length ≤ bytes.length := by
  have hsame := congrArg List.length (splitLine_append bytes)
  rw [List.length_append] at hsame
  omega

theorem EachLine.behind_line (h : EachLine P lineStart bytes) (hne : (splitLine bytes).1 ≠ []) :
    EachLine P ((splitLine bytes).1.getLast? == some 0x0A) (splitLine bytes).2 := by
  rw [← splitLine_append bytes] at h
  exact h.behind hne

theorem cut_eq_splitLine {n : Nat} (h : bytes.length ≤ n) :
    (Chunk.cut n bytes).bytes = (splitLine bytes).1 := by
  rw [cut_bytes, List.take_of_length_le ((splitLine_length_le bytes).trans h)]

/-- Where a directive may stand, a chunk that is not the whole of its line is none, and neither is
the line. -/
theorem whole_or_plain
    (h : EachLine (PlainBeyond (settings.room + 1)) lineStart bytes) :
    (Chunk.cut (settings.room + 1) bytes).bytes = (splitLine bytes).1 ∨
      (lineStart = true → directive? (splitLine bytes).1 = none ∧
        directive? (Chunk.cut (settings.room + 1) bytes).bytes = none) := by
  rw [cut_bytes]
  by_cases hfits : (splitLine bytes).1.length ≤ settings.room + 1
  · exact .inl (List.take_of_length_le hfits)
  · cases bytes with
    | nil => exact .inl rfl
    | cons b bytes => exact .inr fun hstart => h.1 hstart (Nat.not_le.mp hfits)

/-- Where no line is longer than that, there is nothing to be said of longer ones. -/
theorem eachLine_of_length_le {n : Nat} (h : bytes.length ≤ n) :
    EachLine (PlainBeyond n) lineStart bytes := by
  induction bytes generalizing lineStart with
  | nil => trivial
  | cons b bytes ih =>
    have hline := splitLine_length_le (b :: bytes)
    rw [List.length_cons] at h
    exact ⟨fun _ hlong => absurd hlong (by rw [List.length_cons] at hline; omega), ih (by omega)⟩

namespace State

/-- A chunk that is a directive is the whole of its line. -/
theorem cut_of_directiveAt? {d : Delimiter}
    (h : EachLine (PlainBeyond (settings.room + 1)) lineStart bytes)
    (hd : s.directiveAt? settings lineStart bytes = some d) :
    (Chunk.cut (settings.room + 1) bytes).bytes = (splitLine bytes).1 := by
  rcases whole_or_plain h with hwhole | hplain
  · exact hwhole
  · unfold directiveAt? at hd
    split at hd
    · next hfresh =>
      simp only [Bool.and_eq_true] at hfresh
      rw [(hplain hfresh.1.1).2] at hd
      cases hd
    · cases hd

/-- A scanner that reads whole lines comes to the same directives. -/
theorem directiveAt?_room {room : Nat} (hroom : bytes.length ≤ room)
    (h : EachLine (PlainBeyond (settings.room + 1)) lineStart bytes) :
    s.directiveAt? { settings with room } lineStart bytes =
      s.directiveAt? settings lineStart bytes := by
  simp only [directiveAt?, cut_eq_splitLine (hroom.trans (Nat.le_succ room))]
  split
  · next hfresh =>
    simp only [Bool.and_eq_true] at hfresh
    rcases whole_or_plain h with hwhole | hplain
    · rw [hwhole]
    · rw [(hplain hfresh.1.1).1, (hplain hfresh.1.1).2]
  · rfl

/-- A scanner that reads whole lines yields the same. -/
theorem transcript_room {room : Nat} (hroom : bytes.length ≤ room)
    (h : EachLine (PlainBeyond (settings.room + 1)) lineStart bytes) :
    s.transcript { settings with room } lineStart bytes = s.transcript settings lineStart bytes := by
  induction hlength : bytes.length using Nat.strong_induction_on generalizing s lineStart bytes with
  | _ n ih =>
    have hsame := s.directiveAt?_room hroom h
    cases hd : s.directiveAt? settings lineStart bytes with
    | some d =>
      have hwhole := cut_of_directiveAt? h hd
      have hwhole' := cut_eq_splitLine (hroom.trans (Nat.le_succ room))
      have hne := cut_ne_nil_of_directiveAt? hd
      have hrest := Chunk.length_rest_lt hne
      rw [hwhole] at hne
      rw [cut_rest hwhole] at hrest
      rw [transcript_of_directive hd, transcript_of_directive (hsame.trans hd)]
      simp only [hwhole, hwhole', cut_rest hwhole, cut_rest hwhole']
      exact ih _ (hrest.trans_eq hlength) (hrest.le.trans hroom) (h.behind_line hne) rfl
    | none =>
      cases bytes with
      | nil => rw [transcript_nil, transcript_nil]
      | cons b bytes =>
        have hnext (t : State) : t.transcript { settings with room } (b == 0x0A) bytes =
            t.transcript settings (b == 0x0A) bytes := by
          rw [List.length_cons] at hlength hroom
          exact ih bytes.length (by omega) (by omega) h.2 rfl
        rw [transcript_cons hd, transcript_cons (hsame.trans hd)]
        simp only [hnext]

end State

end Scan

open Scan

namespace Scanner

variable {sc sc' : Scanner} {log : List Entry} {P : List UInt8 → Prop}

/-- What is known of a scanner all of whose lines have a property. -/
structure Lined (P : List UInt8 → Prop) (sc : Scanner) : Prop where
  aligned : sc.Aligned
  lines : EachLine P sc.startsLine sc.unread

theorem Move.lined (h : Move sc log sc') (hsc : sc.Lined P) : sc'.Lined P := by
  obtain ⟨⟨hline, hstart⟩, hlines⟩ := hsc
  cases h with
  | @read b chunk t outcome hopen hchunk hread =>
    rw [hchunk] at hline hstart
    have hstarts : (b == 0x0A) = (chunk.isEmpty && sc.atLineStart) := by
      rw [hstart (by simp)]
      cases chunk with
      | nil => simp
      | cons c chunk =>
        simp only [WithinLine, List.dropLast_cons_cons, List.mem_cons, not_or] at hline
        simp [Ne.symm hline.1]
    have hlines' := hlines
    rw [unread, hchunk, List.cons_append] at hlines'
    have hbehind := hlines'.2
    rw [hstarts] at hbehind
    refine ⟨⟨@WithinLine.of_append [b] chunk hline, fun hne => ?_⟩, hbehind⟩
    obtain ⟨c, chunk, rfl⟩ := List.exists_cons_of_ne_nil hne
    rw [hstart (by simp), List.getLast?_cons_cons]
  | @load c hloads hd =>
    have hbytes := hloads.bytes_eq
    refine ⟨⟨hloads.cut ▸ withinLine_cut _ _, fun _ => rfl⟩, ?_⟩
    have hstarts : startsLine { sc.consume c with chunk := c.bytes } = false := by
      simp [startsLine, hloads.nonempty]
    have hunread : unread { sc.consume c with chunk := c.bytes } = sc.unread := by
      simp [unread, consume, hloads.empty, hbytes]
    rw [hstarts, hunread]
    exact hlines.weaken
  | @obey c d hloads hd =>
    have hunread : sc.unread = c.bytes ++ c.rest := by
      rw [unread, hloads.empty, hloads.bytes_eq, List.nil_append]
    rw [hunread] at hlines
    have hbehind := hlines.behind hloads.nonempty
    have hempty : ((sc.consume c).obey d c.bytes.length).chunk = [] := hloads.empty
    refine ⟨⟨by simp [hempty, WithinLine], fun hne => absurd hempty hne⟩, ?_⟩
    rw [startsLine, unread, hempty]
    exact hbehind

theorem Moves.lined (h : Moves sc log sc') (hsc : sc.Lined P) : sc'.Lined P := by
  induction h with
  | refl => exact hsc
  | tail _ hmove ih => exact hmove.lined ih

theorem lined_ofSource {bytes : List UInt8} {settings : Settings} {offset : Nat} {d : Delimiter}
    (h : EachLine P (offset == 0) bytes) : (ofSource ⟨bytes, none⟩ settings offset d).Lined P :=
  ⟨aligned_ofSource _ _ _ _, h⟩

/-- How lines are read that are longer than a chunk, compared to a scanner that reads whole lines. -/
structure ReadsWhole (sc whole : Scanner) : Prop where
  results : sc.results = whole.results
  /-- A directive takes up its line, and leaves the text that is held as it was. -/
  directive : ∀ log before chunk d sc', Moves sc log before → Move before [.directive chunk d] sc' →
    splitLine before.unread = (chunk, sc'.unread) ∧ sc'.state = before.state.obey d chunk.length

/-- The chunks of a stream do not show, if no line that is longer than a chunk is a directive, by the
whole of it or by its first chunk. -/
theorem readsWhole_ofSource {bytes : List UInt8} {settings : Settings} {offset : Nat}
    (h : EachLine (PlainBeyond (settings.room + 1)) (offset == 0) bytes) (d : Delimiter) :
    ReadsWhole (ofSource ⟨bytes, none⟩ settings offset d)
      (ofSource ⟨bytes, none⟩ { settings with room := bytes.length } offset d) := by
  constructor
  case results =>
    rw [results_ofSource, results_ofSource]
    exact (@State.transcript_room settings.inEffect _ _ _ _ le_rfl h).symm
  case directive =>
    intro log before chunk d' sc' hmoves hmove
    have hlined := hmoves.lined (@lined_ofSource _ bytes settings offset d h)
    have hsettings := hmoves.reads.settings
    cases hmove with
    | @obey c d hloads hd =>
      have hunread : before.unread = before.source.bytes := by
        rw [unread, hloads.empty, List.nil_append]
      have hstarts : before.startsLine = before.atLineStart := by
        rw [startsLine, hloads.empty]
        rfl
      have hlines := hlined.lines
      have hroom : settings.room = before.settings.room := (congrArg Settings.room hsettings).symm
      rw [hunread, hstarts, hroom] at hlines
      rw [← hloads.cut] at hd
      have hwhole := State.cut_of_directiveAt? (s := before.state) hlines hd
      have hrest := cut_rest hwhole
      rw [hloads.cut] at hwhole hrest
      have hunread' : ((before.consume c).obey d' c.bytes.length).unread = c.rest := by
        rw [unread, show ((before.consume c).obey d' c.bytes.length).chunk = [] from hloads.empty]
        rfl
      rw [hunread, hunread', hwhole, hrest]
      exact ⟨rfl, rfl⟩

theorem readsWhole_of_slashes :
    EachLine (PlainBeyond 65536) true slashes ∧
      ReadsWhole (ofSource ⟨slashes, none⟩) (ofSource ⟨slashes, none⟩ { room := slashes.length }) := by
  have hlength : slashes.length ≤ 65536 := by
    have hbytes : slashes.length = 18 := by cbv
    omega
  exact ⟨eachLine_of_length_le hlength,
    @readsWhole_ofSource slashes {} 0 (eachLine_of_length_le hlength) semicolon⟩

end Scanner

/-! ### A directive longer than a chunk -/

namespace Scan

open Text

/-- The keyword, a blank and a word make a directive, whatever follows behind a blank. -/
theorem directiveToken?_of_trimChars {line token more : List Char}
    (h : trimChars line = "DELIMITER ".toList ++ (token ++ more)) (hne : token ≠ [])
    (htoken : ∀ c ∈ token, isBlank c = false)
    (hmore : ∀ c, more.head? = some c → isBlank c = true) : directiveToken? line = some token := by
  have hsplit : splitAtBlank (trimChars line) = some ("DELIMITER".toList, token ++ more) := by
    rw [h]
    simp [splitAtBlank, isAsciiBlankChar]
  have hword : (words ([] ++ token ++ more)).head? = some token :=
    head?_words (by simp) hne htoken hmore
  rw [List.nil_append] at hword
  simp only [directiveToken?, hsplit, hword]
  rfl

theorem trimChars_append_replicate (cs : List Char) (n : Nat) :
    trimChars (cs ++ List.replicate n ' ') = trimChars cs := by
  induction n with
  | zero => simp
  | succ n ih => rw [List.replicate_succ', ← List.append_assoc, trimChars_concat (by decide), ih]

theorem encode_replicate (n : Nat) :
    Utf8.encode (String.ofList (List.replicate n ' ')) = List.replicate n 0x20 := by
  induction n with
  | zero => simp
  | succ n ih =>
    rw [List.replicate_succ, Utf8.encode_cons, ih]
    rfl

theorem splitLine_concat {line : List UInt8} (h : 0x0A ∉ line) :
    splitLine (line ++ [0x0A]) = (line ++ [0x0A], []) := by
  induction line with
  | nil => rfl
  | cons b line ih =>
    rw [List.mem_cons, not_or] at h
    rw [List.cons_append, splitLine, ih h.2]
    simp [Ne.symm h.1]

def dollars : Delimiter := .ofBytes [0x24, 0x24]

/-- A directive for `$$` and blanks behind it. -/
def spaced (blanks : Nat) : List UInt8 :=
  Utf8.encode "DELIMITER $$" ++ List.replicate blanks 0x20

/-- The same, with the text of a statement in the same line. -/
def trailed (blanks : Nat) : List UInt8 := spaced blanks ++ Utf8.encode "SELECT 1$$\n"

theorem length_spaced (blanks : Nat) : (spaced blanks).length = 12 + blanks := by
  have hfront : (Utf8.encode "DELIMITER $$").length = 12 := by cbv
  rw [spaced, List.length_append, List.length_replicate, hfront]

theorem length_trailed (blanks : Nat) : (trailed blanks).length = 23 + blanks := by
  have hbehind : (Utf8.encode "SELECT 1$$\n").length = 11 := by cbv
  rw [trailed, List.length_append, length_spaced, hbehind]
  omega

theorem getLast?_spaced (blanks : Nat) : (spaced (blanks + 1)).getLast? = some 0x20 := by
  rw [spaced, List.replicate_succ', ← List.append_assoc, List.getLast?_concat]

theorem splitLine_trailed (blanks : Nat) : splitLine (trailed blanks) = (trailed blanks, []) := by
  have hline : trailed blanks = spaced blanks ++ Utf8.encode "SELECT 1$$" ++ [0x0A] := by
    rw [trailed, List.append_assoc]
    rfl
  have hno (text : String) (h : '\n' ∉ text.toList) : (0x0A : UInt8) ∉ Utf8.encode text :=
    mt (Utf8.mem_encode_iff (c := '\n') (by decide)).mp h
  rw [hline]
  apply splitLine_concat
  simp [spaced, hno "DELIMITER $$" (by simp), hno "SELECT 1$$" (by simp)]

theorem directive?_of_token {line : List Char} (h : directiveToken? line = some ['$', '$']) :
    directive? (Utf8.encode (String.ofList line)) = some dollars := by
  simp only [directive?, Utf8.decode?_encode, String.toList_ofList, h, Option.map_some]
  rfl

theorem directive?_spaced (blanks : Nat) : directive? (spaced blanks) = some dollars := by
  rw [spaced, ← encode_replicate, ← Utf8.encode_append,
    ← String.ofList_toList (s := "DELIMITER $$"), ← String.ofList_append]
  apply directive?_of_token
  apply @directiveToken?_of_trimChars _ _ []
  · rw [trimChars_append_replicate]
    rfl
  · simp
  · simp [isBlank]
  · simp

theorem directive?_trailed (blanks : Nat) : directive? (trailed (blanks + 1)) = some dollars := by
  have hline : trailed (blanks + 1) = Utf8.encode (String.ofList ("DELIMITER $$".toList ++
      List.replicate (blanks + 1) ' ' ++ "SELECT 1$$".toList ++ ['\n'])) := by
    simp only [String.ofList_append, Utf8.encode_append, encode_replicate, trailed, spaced,
      String.ofList_toList, List.append_assoc]
    rfl
  rw [hline]
  apply directive?_of_token
  apply @directiveToken?_of_trimChars _ _ (List.replicate (blanks + 1) ' ' ++ "SELECT 1$$".toList)
  · have hstart : trimStartChars ("DELIMITER $$".toList ++ List.replicate (blanks + 1) ' ' ++
        "SELECT 1$$".toList) = "DELIMITER $$".toList ++ List.replicate (blanks + 1) ' ' ++
        "SELECT 1$$".toList := by
      simp [trimStartChars, isBlank]
    rw [trimChars_concat (by decide), trimChars, hstart]
    simp [trimEndChars, isBlank]
  · simp
  · simp [isBlank]
  · simp [List.replicate_succ, isBlank]

end Scan

namespace Scanner

open Text State

/-- With so many blanks the directive fills a chunk: what stands behind it in the line is a statement
then, and is none for a scanner that reads whole lines. -/
theorem results_trailed :
    (ofSource ⟨trailed 65524, none⟩ {}).results =
      [⟨.ok (some ⟨"SELECT 1", 65546, 65546⟩), dollars, 65546⟩, ⟨.ok none, dollars, 65547⟩] ∧
    (ofSource ⟨trailed 65524, none⟩ { room := 65547 }).results = [⟨.ok none, dollars, 65547⟩] := by
  constructor
  · have hbytes : (Chunk.cut 65536 (trailed 65524)).bytes = spaced 65524 := by
      rw [cut_bytes, splitLine_trailed, trailed, List.take_left' (length_spaced 65524)]
    have hrest : (Chunk.cut 65536 (trailed 65524)).rest = Utf8.encode "SELECT 1$$\n" := by
      have hall := Chunk.cut_append 65536 (trailed 65524)
      rw [hbytes] at hall
      exact List.append_cancel_left hall
    have hdirective : (initial 0 semicolon).directiveAt? (Settings.inEffect {}) true
        (trailed 65524) = some dollars := by
      rw [directiveAt?, if_pos (by rfl), show (Settings.inEffect {}).room + 1 = 65536 from rfl,
        hbytes]
      exact directive?_spaced 65524
    have hlast : ((spaced 65524).getLast? == some 0x0A) = false := by
      rw [getLast?_spaced]
      rfl
    have hfirst : ((initial 0 semicolon).obey dollars 65536).scan (Settings.inEffect {}).limit
        (Utf8.encode "SELECT 1$$\n") =
          (.initial 65546 dollars, [0x0A], some (.ok ⟨"SELECT 1", 65546, 65546⟩)) := by
      cbv
    have hsecond : (initial 65546 dollars).scan (Settings.inEffect {}).limit [0x0A] =
        (⟨.code, false, [], 0, dollars, 65547, 65546⟩, [], none) := by
      cbv
    rw [results_ofSource]
    show transcript _ (initial 0 semicolon) true (trailed 65524) = _
    rw [transcript_of_directive hdirective]
    show transcript _
      ((initial 0 semicolon).obey dollars (Chunk.cut 65536 (trailed 65524)).bytes.length)
      ((Chunk.cut 65536 (trailed 65524)).bytes.getLast? == some 0x0A)
      (Chunk.cut 65536 (trailed 65524)).rest = _
    rw [hbytes, hrest, hlast, length_spaced, ← List.append_nil (Utf8.encode "SELECT 1$$\n"),
      transcript_append _ _ (by decide), hfirst, afterScan]
    show _ :: transcript _ (initial 65546 dollars) false ([0x0A] ++ []) = _
    rw [transcript_append _ _ (by decide), hsecond, afterScan, transcript_nil]
    rfl
  · have hwhole : (Chunk.cut 65548 (trailed 65524)).bytes = (splitLine (trailed 65524)).1 :=
      cut_eq_splitLine (by rw [length_trailed]; decide)
    have hrest := cut_rest hwhole
    rw [splitLine_trailed] at hwhole hrest
    have hdirective : (initial 0 semicolon).directiveAt? (Settings.inEffect { room := 65547 }) true
        (trailed 65524) = some dollars := by
      rw [directiveAt?, if_pos (by rfl),
        show (Settings.inEffect { room := 65547 }).room + 1 = 65548 from rfl, hwhole]
      exact directive?_trailed 65523
    rw [results_ofSource]
    show transcript _ (initial 0 semicolon) true (trailed 65524) = _
    rw [transcript_of_directive hdirective]
    show transcript _
      ((initial 0 semicolon).obey dollars (Chunk.cut 65548 (trailed 65524)).bytes.length) _
      (Chunk.cut 65548 (trailed 65524)).rest = _
    rw [hwhole, hrest, length_trailed, transcript_nil]
    rfl

end Scanner

end SqlBackup
