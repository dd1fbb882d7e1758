import SqlBackup.Proofs.Scan.Transcript
import SqlBackup.Proofs.Text.Blank

/-!
# Scanning from the end of a statement

A scanner that starts where another one has just ended a statement, with the delimiter in effect
there, yields what the other one has still to yield. The two cut the stream into different chunks;
that shows in no result, since no delimiter ends with a line feed, so that neither of them stands at
the start of a line.
-/
namespace SqlBackup

namespace Scan

/-- The last byte of the delimiter stands within a line. -/
def Delimiter.EndsInLine (d : Delimiter) : Prop := ∃ b, d.bytes.getLast? = some b ∧ b ≠ 0x0A

theorem endsInLine_semicolon : semicolon.EndsInLine := ⟨0x3B, rfl, by decide⟩

/-- A directive sets a word. -/
theorem exists_of_directive? {line : List UInt8} {d : Delimiter} (h : directive? line = some d) :
    ∃ token : List Char, token ≠ [] ∧ (∀ c ∈ token, Text.isBlank c = false) ∧
      d.bytes = Text.Utf8.encode (String.ofList token) := by
  unfold directive? at h
  split at h
  · cases h
  next text _ =>
  rw [Option.map_eq_some_iff] at h
  obtain ⟨token, htoken, rfl⟩ := h
  have hword : ∃ cs, token ∈ Text.words cs := by
    unfold directiveToken? at htoken
    split at htoken
    · cases htoken
    split at htoken
    · exact ⟨_, List.mem_of_mem_head? htoken⟩
    · cases htoken
  obtain ⟨cs, hcs⟩ := hword
  obtain ⟨hne, hblank⟩ := Text.words_spec hcs
  exact ⟨token, hne, hblank, by simp [Delimiter.ofBytes, hne]⟩

theorem notBlank_of_directive? {line : List UInt8} {d : Delimiter} (h : directive? line = some d) :
    ∀ b ∈ d.bytes, Text.isAsciiBlank b = false := by
  obtain ⟨token, -, hblank, hbytes⟩ := exists_of_directive? h
  rw [hbytes]
  exact Text.isAsciiBlank_of_mem_encode hblank

theorem endsInLine_of_directive? {line : List UInt8} {d : Delimiter}
    (h : directive? line = some d) : d.EndsInLine := by
  obtain ⟨token, hne, -, hbytes⟩ := exists_of_directive? h
  have hnil : d.bytes ≠ [] := by simpa [hbytes] using hne
  refine ⟨_, List.getLast?_eq_some_getLast hnil, fun hfeed => ?_⟩
  have hblank := notBlank_of_directive? h _ (List.getLast_mem hnil)
  rw [hfeed] at hblank
  cases hblank

theorem State.endsInLine_of_directiveAt? {settings : Settings} {s : State} {lineStart : Bool}
    {bytes : List UInt8} {d : Delimiter} (h : s.directiveAt? settings lineStart bytes = some d) :
    d.EndsInLine := by
  unfold directiveAt? at h
  split at h
  · exact endsInLine_of_directive? h
  · cases h

/-- A line feed ends no statement. -/
theorem State.ne_lineFeed_of_boundary {limit : Nat} {s t : State} {b : UInt8}
    (hd : s.delimiter.EndsInLine) (h : s.step limit b = (t, .boundary)) : b ≠ 0x0A := by
  obtain ⟨-, -, hpending, hends⟩ := step_boundary h
  have hdelimiter := (step_frame h).1
  obtain ⟨c, hc, hne⟩ := hd
  rw [atDelimiter, Delimiter.ends, Bool.and_eq_true, hdelimiter, s.delimiter.backward_eq, hpending,
    List.isPrefixOf_iff_prefix] at hends
  obtain ⟨later, hlater⟩ := hends.2
  have hhead : (s.delimiter.bytes.reverse ++ later).head? = some c := by
    rw [List.head?_append, List.head?_reverse, hc, Option.some_or]
  rw [hlater, List.head?_cons, Option.some_inj] at hhead
  rwa [hhead]

/-- The results of a scanner that starts where this statement ends, in bytes that start at this
offset. Nothing is left there if nothing of the bytes is read before. -/
def ResumesAt (settings : Settings) (offset : Nat) (bytes : List UInt8) (statement : Statement)
    (d : Delimiter) (results : List Result) : Prop :=
  ∃ read left, bytes = read ++ left ∧ statement.endOffset = offset + read.length ∧
    (read = [] → left = []) ∧
    results = (State.initial statement.endOffset d).transcript settings false left

theorem ResumesAt.append {settings : Settings} {offset : Nat} {bytes : List UInt8}
    {statement : Statement} {d : Delimiter} {results : List Result} (front : List UInt8)
    (hne : front ≠ [])
    (h : ResumesAt settings (offset + front.length) bytes statement d results) :
    ResumesAt settings offset (front ++ bytes) statement d results := by
  obtain ⟨read, left, rfl, hoffset, -, hresults⟩ := h
  refine ⟨front ++ read, left, by simp, ?_, by simp [hne], hresults⟩
  rw [hoffset, List.length_append, Nat.add_assoc]

/-- What a transcript lists behind a statement is the transcript from the end of the statement. -/
theorem State.transcript_resume {settings : Settings} {s : State} {lineStart : Bool}
    {bytes : List UInt8} {before rest : List Result} {statement : Statement} {d : Delimiter}
    {p : Nat}
    (hd : s.delimiter.EndsInLine)
    (h : s.transcript settings lineStart bytes = before ++ ⟨.ok (some statement), d, p⟩ :: rest) :
    ResumesAt settings s.position bytes statement d rest := by
  fun_induction transcript settings s lineStart bytes generalizing before with
  | case1 s lineStart bytes d' hd' c =>
    rename_i ih
    have hnext := ih (endsInLine_of_directiveAt? hd') h
    rw [← Chunk.cut_append (settings.room + 1) bytes]
    exact hnext.append _ (cut_ne_nil_of_directiveAt? hd')
  | case2 s lineStart _ t last htake =>
    obtain ⟨rfl, hend⟩ := take_statement rfl htake
    rcases List.cons_eq_append_iff.mp h with ⟨rfl, hhead⟩ | ⟨before', -, htail⟩
    · simp only [shown, List.cons.injEq, Result.mk.injEq, Except.ok.injEq, Option.some.injEq]
        at hhead
      obtain ⟨⟨rfl, rfl, rfl⟩, rfl⟩ := hhead
      refine ⟨[], [], rfl, hend, fun _ => rfl, ?_⟩
      rw [hend, transcript_initial_nil]
      rfl
    · simp [List.cons_eq_append_iff, shown] at htail
  | case3 s lineStart _ t answer hlast =>
    simp only [List.cons_eq_append_iff, shown] at h
    rcases h with ⟨-, hhead⟩ | ⟨before', -, htail⟩
    · simp only [List.cons.injEq, Result.mk.injEq] at hhead
      exact (hlast statement hhead.1.1.symm).elim
    · simp at htail
  | case4 s lineStart b bytes _ t hstep ih =>
    obtain ⟨hdelimiter, hposition, -⟩ := step_frame hstep
    have hnext := ih (hdelimiter ▸ hd) h
    rw [hposition] at hnext
    exact hnext.append [b] (by simp)
  | case5 => simp [List.cons_eq_append_iff, shown] at h
  | case6 s lineStart b bytes _ t hstep u htake ih =>
    obtain ⟨hdelimiter, hposition, -⟩ := step_frame hstep
    obtain ⟨hdelimiter', hposition'⟩ := take_frame htake
    have hnext := ih (by rwa [hdelimiter', hdelimiter]) h
    rw [hposition', hposition] at hnext
    exact hnext.append [b] (by simp)
  | case7 s lineStart b bytes _ t hstep u yielded htake ih =>
    obtain ⟨hdelimiter, hposition, -⟩ := step_frame hstep
    obtain ⟨hdelimiter', hposition'⟩ := take_frame htake
    obtain ⟨rfl, hend⟩ := take_statement (step_boundary hstep).2.1 htake
    rcases List.cons_eq_append_iff.mp h with ⟨rfl, hhead⟩ | ⟨before', -, htail⟩
    · simp only [shown, List.cons.injEq, Result.mk.injEq, Except.ok.injEq, Option.some.injEq]
        at hhead
      obtain ⟨⟨rfl, rfl, rfl⟩, rfl⟩ := hhead
      refine ⟨[b], bytes, rfl, by rw [hend, hposition]; rfl, by simp, ?_⟩
      have hfeed : (b == 0x0A) = false := by simpa using ne_lineFeed_of_boundary hd hstep
      rw [hfeed, hend]
      rfl
    · have hnext := ih (by rwa [hdelimiter', hdelimiter]) htail
      rw [hposition', hposition] at hnext
      exact hnext.append [b] (by simp)
  | case8 => simp [List.cons_eq_append_iff, shown] at h

end Scan

namespace Scanner

open Scan

/-- A scanner that starts at the end of any statement of a sound stream, with the delimiter shown
there, yields exactly what the first scanner yields behind that statement. -/
theorem results_ofSource_endOffset (bytes : List UInt8) (settings : Settings)
    {before rest : List Result} {statement : Statement} {d : Delimiter} {p : Nat}
    (h : (ofSource ⟨bytes, none⟩ settings).results =
      before ++ ⟨.ok (some statement), d, p⟩ :: rest) :
    statement.endOffset ≤ bytes.length ∧
      (ofSource ⟨bytes.drop statement.endOffset, none⟩ settings statement.endOffset d).results =
        rest := by
  rw [results_ofSource] at h
  obtain ⟨read, left, rfl, hend, hread, rfl⟩ := State.transcript_resume endsInLine_semicolon h
  have hoffset : statement.endOffset = read.length := hend.trans (Nat.zero_add _)
  refine ⟨by simp [hoffset], ?_⟩
  rw [results_ofSource, hoffset, List.drop_left]
  by_cases hne : read = []
  · rw [hread hne, State.transcript_initial_nil, State.transcript_initial_nil]
  · have hzero : (read.length == 0) = false := by simpa using hne
    rw [hzero]

/-- A dump with a section whose delimiter is `//` and whose statements share a line. -/
def slashes : List UInt8 := Text.Utf8.encode "DELIMITER //\na// b"

theorem results_slashes : (ofSource ⟨slashes, none⟩ {}).results =
    [⟨.ok (some ⟨"a", 16, 16⟩), .ofBytes [0x2F, 0x2F], 16⟩,
      ⟨.ok (some ⟨"b", 2, 18⟩), .ofBytes [0x2F, 0x2F], 18⟩,
      ⟨.ok none, .ofBytes [0x2F, 0x2F], 18⟩] := by
  let d : Delimiter := .ofBytes [0x2F, 0x2F]
  have hcut : Chunk.cut ((Settings.inEffect {}).room + 1) slashes =
      ⟨Text.Utf8.encode "DELIMITER //\n", Text.Utf8.encode "a// b", true⟩ := by cbv
  have hdirective : (State.initial 0 semicolon).directiveAt? (Settings.inEffect {}) true slashes =
      some d := by
    rw [State.directiveAt?, hcut]
    cbv
  have hplain : ((State.initial 0 semicolon).obey d 13).directiveAt? (Settings.inEffect {}) true
      (Text.Utf8.encode "a// b" ++ []) = none := by
    have hbytes : Text.Utf8.encode "a// b" = [0x61, 0x2F, 0x2F, 0x20, 0x62] := by cbv
    have hline : Chunk.cut ((Settings.inEffect {}).room + 1) (Text.Utf8.encode "a// b" ++ []) =
        ⟨Text.Utf8.encode "a// b", [], false⟩ := by
      simp [hbytes, Chunk.cut, Settings.inEffect]
    rw [State.directiveAt?, hline]
    simp only [directive?, Text.Utf8.decode?_encode]
    rfl
  have hfirst : ((State.initial 0 semicolon).obey d 13).scan (Settings.inEffect {}).limit
      (Text.Utf8.encode "a// b") =
        (.initial 16 d, Text.Utf8.encode " b", some (.ok ⟨"a", 16, 16⟩)) := by
    cbv
  have hsecond : (State.initial 16 d).scan (Settings.inEffect {}).limit (Text.Utf8.encode " b") =
      (⟨.code, true, [0x62], 1, d, 18, 16⟩, [], none) := by
    cbv
  have hlast : State.take ⟨.code, true, [0x62], 1, d, 18, 16⟩ false =
      (.initial 18 d, .ok (some ⟨"b", 2, 18⟩)) := by cbv
  rw [results_ofSource]
  show State.transcript _ (.initial 0 semicolon) true slashes = _
  rw [State.transcript_of_directive hdirective, hcut]
  show State.transcript _ ((State.initial 0 semicolon).obey d 13) true
    (Text.Utf8.encode "a// b" ++ []) = _
  rw [State.transcript_eq_false hplain, State.transcript_append _ _ (by decide), hfirst,
    State.afterScan]
  show _ :: State.transcript _ (State.initial 16 d) false (Text.Utf8.encode " b" ++ []) = _
  rw [State.transcript_append _ _ (by decide), hsecond, State.afterScan, State.transcript_nil,
    hlast]
  rfl

theorem results_behind_slashes : 16 ≤ slashes.length ∧
    (ofSource ⟨slashes.drop 16, none⟩ {} 16 (.ofBytes [0x2F, 0x2F])).results =
      [⟨.ok (some ⟨"b", 2, 18⟩), .ofBytes [0x2F, 0x2F], 18⟩,
        ⟨.ok none, .ofBytes [0x2F, 0x2F], 18⟩] :=
  @results_ofSource_endOffset slashes {} [] _ _ _ _ results_slashes

end Scanner

end SqlBackup
