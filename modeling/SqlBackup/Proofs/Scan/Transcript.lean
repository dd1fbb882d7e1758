import Mathlib
import SqlBackup.Proofs.Scan.Effect

/-!
# What a scanner yields, without its chunks

A scanner is called until it yields no statement, and each call shows an answer, the delimiter and
the position. A transcript lists the same for a stream that is read byte by byte: nothing of it
depends on how the stream is cut into chunks, but that a directive is recognised in the first chunk
of its line. The main statement is that the two agree for a stream that does not fail.
-/
namespace SqlBackup

namespace Scan

/-- The settings that a scanner goes by: a limit of 0 stands for 1. -/
def Settings.inEffect (settings : Settings) : Settings :=
  { settings with limit := max 1 settings.limit }

/-- What a call for the next statement shows. -/
structure Result where
  answer : Scanner.Answer
  /-- The delimiter after the call. -/
  delimiter : Delimiter
  /-- The offset behind the last byte read. -/
  position : Nat

/-- A part of a line: a line feed stands at its end only. -/
def WithinLine (bytes : List UInt8) : Prop := 0x0A ∉ bytes.dropLast

instance (bytes : List UInt8) : Decidable (WithinLine bytes) :=
  inferInstanceAs (Decidable (0x0A ∉ bytes.dropLast))

theorem withinLine_cut (n : Nat) (bytes : List UInt8) : WithinLine (Chunk.cut n bytes).bytes := by
  induction n generalizing bytes with
  | zero => simp [WithinLine, Chunk.cut]
  | succ n ih =>
    cases bytes with
    | nil => simp [WithinLine, Chunk.cut]
    | cons b bytes =>
      by_cases h : b = 0x0A
      · simp [WithinLine, Chunk.cut, h]
      · have hrest := ih bytes
        simp only [WithinLine, Chunk.cut, beq_iff_eq, h, ↓reduceIte] at hrest ⊢
        cases hc : (Chunk.cut n bytes).bytes with
        | nil => simp
        | cons c cs =>
          rw [hc] at hrest
          simp [hrest, Ne.symm h]

theorem cut_eq_nil {n : Nat} {bytes : List UInt8} (h : (Chunk.cut (n + 1) bytes).bytes = []) :
    bytes = [] := by
  cases bytes with
  | nil => rfl
  | cons b bytes =>
    simp only [Chunk.cut] at h
    split at h <;> simp at h

/-- What is left of a part of a line is one, and ends as the whole did. -/
theorem WithinLine.of_append {read rest : List UInt8} (h : WithinLine (read ++ rest)) :
    WithinLine rest := by
  cases rest with
  | nil => simp [WithinLine]
  | cons b rest =>
    rw [WithinLine, List.dropLast_append_of_ne_nil (by simp), List.mem_append, not_or] at h
    exact h.2

/-- What a call shows that leaves a scanner in this state. -/
def State.shown (s : State) (answer : Scanner.Answer) : Result := ⟨answer, s.delimiter, s.position⟩

@[simp] theorem directive?_nil : directive? [] = none := by
  simp [directive?, directiveToken?, splitAtBlank]

namespace State

/-- The delimiter set by the chunk at the front of some bytes, where a directive may stand. -/
def directiveAt? (settings : Settings) (s : State) (lineStart : Bool) (bytes : List UInt8) :
    Option Delimiter :=
  if lineStart && s.mode == .code && !s.begun then
    directive? (Chunk.cut (settings.room + 1) bytes).bytes
  else none

@[simp] theorem directiveAt?_false (settings : Settings) (s : State) (bytes : List UInt8) :
    s.directiveAt? settings false bytes = none := by simp [directiveAt?]

theorem cut_ne_nil_of_directiveAt? {settings : Settings} {s : State} {lineStart : Bool}
    {bytes : List UInt8} {d : Delimiter} (h : s.directiveAt? settings lineStart bytes = some d) :
    (Chunk.cut (settings.room + 1) bytes).bytes ≠ [] := by
  intro empty
  rw [directiveAt?, empty, directive?_nil] at h
  simp at h

/-- Obeys a directive of this many bytes. -/
def obey (s : State) (d : Delimiter) (length : Nat) : State :=
  { s with delimiter := d, position := s.position + length }

/-- The results of reading some bytes, the last of which ends the stream. `lineStart` tells whether
the first of them starts a line. -/
def transcript (settings : Settings) (s : State) (lineStart : Bool) (bytes : List UInt8) :
    List Result :=
  match _obeyed : s.directiveAt? settings lineStart bytes with
  | some d =>
      let c := Chunk.cut (settings.room + 1) bytes
      transcript settings (s.obey d c.bytes.length) (c.bytes.getLast? == some 0x0A) c.rest
  | none =>
      match bytes with
      | [] =>
          match { s with mode := .code }.take false with
          | (s, .ok (some statement)) => [s.shown (.ok (some statement)), s.shown (.ok none)]
          | (s, answer) => [s.shown answer]
      | b :: bytes =>
          match s.step settings.limit b with
          | (s, .more) => transcript settings s (b == 0x0A) bytes
          | (s, .tooLarge) => [s.shown (.error (.statementTooLarge settings.limit s.position))]
          | (s, .boundary) =>
              match s.take true with
              | (s, .ok none) => transcript settings s (b == 0x0A) bytes
              | (s, .ok (some statement)) =>
                  s.shown (.ok (some statement)) :: transcript settings s (b == 0x0A) bytes
              | (s, .error fault) => [s.shown (.error fault)]
termination_by bytes.length
decreasing_by
  · exact Chunk.length_rest_lt (cut_ne_nil_of_directiveAt? _obeyed)
  all_goals simp

theorem transcript_of_directive {settings : Settings} {s : State} {lineStart : Bool}
    {bytes : List UInt8} {d : Delimiter} (h : s.directiveAt? settings lineStart bytes = some d) :
    s.transcript settings lineStart bytes =
      let c := Chunk.cut (settings.room + 1) bytes
      (s.obey d c.bytes.length).transcript settings (c.bytes.getLast? == some 0x0A) c.rest := by
  rw [transcript]
  split
  · next d' h' =>
    rw [h] at h'
    cases h'
    rfl
  · next h' => rw [h] at h'; cases h'

theorem transcript_nil (settings : Settings) (s : State) (lineStart : Bool) :
    s.transcript settings lineStart [] =
      match { s with mode := .code }.take false with
      | (s, .ok (some statement)) => [s.shown (.ok (some statement)), s.shown (.ok none)]
      | (s, answer) => [s.shown answer] := by
  rw [transcript]
  split
  · next h => exact absurd rfl (cut_ne_nil_of_directiveAt? h)
  · rfl

/-- At the end of a stream there is nothing more behind a statement. -/
theorem transcript_initial_nil (settings : Settings) (offset : Nat) (d : Delimiter)
    (lineStart : Bool) :
    (initial offset d).transcript settings lineStart [] = [⟨.ok none, d, offset⟩] := by
  rw [transcript_nil]
  simp [initial, take, cleared, shown, Text.trim]

theorem transcript_cons {settings : Settings} {s : State} {lineStart : Bool} {b : UInt8}
    {bytes : List UInt8} (h : s.directiveAt? settings lineStart (b :: bytes) = none) :
    s.transcript settings lineStart (b :: bytes) =
      match s.step settings.limit b with
      | (s, .more) => s.transcript settings (b == 0x0A) bytes
      | (s, .tooLarge) => [s.shown (.error (.statementTooLarge settings.limit s.position))]
      | (s, .boundary) =>
          match s.take true with
          | (s, .ok none) => s.transcript settings (b == 0x0A) bytes
          | (s, .ok (some statement)) =>
              s.shown (.ok (some statement)) :: s.transcript settings (b == 0x0A) bytes
          | (s, .error fault) => [s.shown (.error fault)] := by
  rw [transcript]
  split
  · next h' => rw [h] at h'; cases h'
  · rfl

/-- Where no directive is recognised it does not matter whether a line starts. -/
theorem transcript_eq_false {settings : Settings} {s : State} {lineStart : Bool}
    {bytes : List UInt8} (h : s.directiveAt? settings lineStart bytes = none) :
    s.transcript settings lineStart bytes = s.transcript settings false bytes := by
  cases bytes with
  | nil => rw [transcript_nil, transcript_nil]
  | cons b bytes => rw [transcript_cons h, transcript_cons (directiveAt?_false settings s _)]

/-- The results after a scan of a part of a line. `endsLine` tells whether that part ends the line,
and `behind` is what follows it. -/
def afterScan (settings : Settings) (endsLine : Bool) (behind : List UInt8) :
    State × List UInt8 × Option (Except Fault Statement) → List Result
  | (s, _, none) => s.transcript settings endsLine behind
  | (s, rest, some (.ok statement)) =>
      s.shown (.ok (some statement)) ::
        s.transcript settings (rest.isEmpty && endsLine) (rest ++ behind)
  | (s, _, some (.error fault)) => [s.shown (.error fault)]

/-- Scanning a part of a line is reading it byte by byte, but for what a directive at its front
would do. -/
theorem transcript_append (settings : Settings) (s : State) {bytes : List UInt8}
    (h : WithinLine bytes) (behind : List UInt8) :
    s.transcript settings false (bytes ++ behind) =
      afterScan settings (bytes.getLast? == some 0x0A) behind (s.scan settings.limit bytes) := by
  induction bytes generalizing s with
  | nil => simp [afterScan]
  | cons b bytes ih =>
    have hrest : WithinLine bytes := @WithinLine.of_append [b] bytes h
    -- The line ends with the byte only if nothing of the part is left behind it.
    have hend : (b == 0x0A) = (bytes.isEmpty && (b :: bytes).getLast? == some 0x0A) := by
      cases bytes with
      | nil => simp
      | cons c bytes =>
        simp only [WithinLine, List.dropLast_cons_cons, List.mem_cons, not_or] at h
        simp [Ne.symm h.1]
    have step (t : State) : t.transcript settings (b == 0x0A) (bytes ++ behind) =
        afterScan settings ((b :: bytes).getLast? == some 0x0A) behind
          (t.scan settings.limit bytes) := by
      cases bytes with
      | nil => simp [afterScan]
      | cons c bytes =>
        rw [hend, List.isEmpty_cons, Bool.false_and, ih t hrest, List.getLast?_cons_cons]
    rw [List.cons_append, transcript_cons (directiveAt?_false settings s _), scan]
    obtain ⟨t, signal⟩ := s.step settings.limit b
    cases signal with
    | more => exact step t
    | tooLarge => rfl
    | boundary =>
      dsimp only
      obtain ⟨u, answer⟩ := t.take true
      rcases answer with fault | (_ | statement)
      · rfl
      · exact step u
      · simp only [afterScan, hend]

/-- A scan that stops leaves an end of the bytes that it was given. -/
theorem exists_of_scan {limit : Nat} {s t : State} {bytes rest : List UInt8}
    {answer : Except Fault Statement} (h : s.scan limit bytes = (t, rest, some answer)) :
    ∃ read, read ≠ [] ∧ bytes = read ++ rest := by
  induction bytes generalizing s with
  | nil => simp at h
  | cons b bytes ih =>
    have go {s' : State} (h : s'.scan limit bytes = (t, rest, some answer)) :
        ∃ read, read ≠ [] ∧ b :: bytes = read ++ rest := by
      obtain ⟨read, _, same⟩ := ih h
      exact ⟨b :: read, by simp, by simp [same]⟩
    simp only [scan] at h
    split at h
    · exact go h
    · simp only [Prod.mk.injEq] at h
      exact ⟨[b], by simp, by simp [h.2.1]⟩
    · split at h
      · exact go h
      · simp only [Prod.mk.injEq] at h
        exact ⟨[b], by simp, by simp [h.2.1]⟩
      · simp only [Prod.mk.injEq] at h
        exact ⟨[b], by simp, by simp [h.2.1]⟩

end State

end Scan

namespace Scanner

open Scan

/-- The results of one call after the other, up to the first that yields no statement. -/
def results (sc : Scanner) : List Result :=
  match _called : sc.next with
  | (sc', .ok (some statement)) => sc'.state.shown (.ok (some statement)) :: sc'.results
  | (sc', answer) => [sc'.state.shown answer]
termination_by sc.remaining
decreasing_by exact remaining_next_lt _called

theorem results_of_finished {sc : Scanner} (h : sc.finished = true) :
    sc.results = [sc.state.shown (.ok none)] := by
  rw [results]
  simp [next_of_finished h]

/-- What is known of a scanner between two calls: what is left of its chunk is a part of a line,
and the next line starts behind it if it ends with a line feed. -/
structure Aligned (sc : Scanner) : Prop where
  withinLine : WithinLine sc.chunk
  atLineStart : sc.chunk ≠ [] → sc.atLineStart = (sc.chunk.getLast? == some 0x0A)

/-- All that a scanner has not read yet. -/
def unread (sc : Scanner) : List UInt8 := sc.chunk ++ sc.source.bytes

/-- Whether the next byte starts a line. -/
def startsLine (sc : Scanner) : Bool := sc.chunk.isEmpty && sc.atLineStart

theorem aligned_ofSource (source : Source) (settings : Settings) (offset : Nat) (d : Delimiter) :
    (ofSource source settings offset d).Aligned :=
  ⟨by simp [ofSource, WithinLine], by simp [ofSource]⟩

/-- The results that are still to come by the transcript. -/
def expected (sc : Scanner) : List Result :=
  if sc.finished then [sc.state.shown (.ok none)]
  else sc.state.transcript sc.settings sc.startsLine sc.unread

/-- The results of a call and of those after it. -/
def expectedAfter (sc : Scanner) : Answer → List Result
  | .ok (some statement) => sc.state.shown (.ok (some statement)) :: sc.expected
  | answer => [sc.state.shown answer]

theorem expected_of_open {sc : Scanner} (h : sc.finished = false) :
    sc.expected = sc.state.transcript sc.settings sc.startsLine sc.unread := by
  simp [expected, h]

/-- A chunk is read as the transcript reads it, if no directive stands in it. -/
theorem transcript_chunk {settings : Settings} {s : State} {lineStart : Bool} {bytes : List UInt8}
    (h : s.directiveAt? settings lineStart bytes = none) :
    let c := Chunk.cut (settings.room + 1) bytes
    s.transcript settings lineStart bytes =
      State.afterScan settings (c.bytes.getLast? == some 0x0A) c.rest
        (s.scan settings.limit c.bytes) := by
  intro c
  rw [State.transcript_eq_false h, ← State.transcript_append settings s (withinLine_cut _ _),
    Chunk.cut_append]

theorem transcript_refill {sc sc' : Scanner} {answer : Answer} (h : sc.refill = (sc', answer))
    (hchunk : sc.chunk = []) (hopen : sc.finished = false) (hsound : sc.source.failure = none) :
    sc.state.transcript sc.settings sc.atLineStart sc.source.bytes = sc'.expectedAfter answer ∧
      (sc'.finished = false → sc'.Aligned ∧ sc'.source.failure = none) := by
  fun_induction refill sc with
  | case1 sc c failure hfailure =>
    rw [hsound] at hfailure
    cases hfailure
  | case2 sc c hempty =>
    have hnil : sc.source.bytes = [] := cut_eq_nil hempty
    rcases ht : { sc.state with mode := .code }.take false with ⟨t, reply⟩
    simp only [finish, ht, Prod.mk.injEq] at h
    obtain ⟨rfl, rfl⟩ := h
    refine ⟨?_, by simp⟩
    rw [hnil, State.transcript_nil, ht]
    rcases reply with fault | (_ | statement)
    · simp [expectedAfter]
    · simp [expectedAfter]
    · simp [expectedAfter, expected]
  | case3 sc c hne shorter d hd _ ih =>
    rw [State.transcript_of_directive (d := d) hd]
    exact ih h hchunk hopen hsound
  | case4 sc c hne shorter hd state chunk statement scanned =>
    simp only [Prod.mk.injEq] at h
    obtain ⟨rfl, rfl⟩ := h
    obtain ⟨read, hread, same⟩ := State.exists_of_scan scanned
    have hline : WithinLine chunk := WithinLine.of_append (same ▸ withinLine_cut _ _)
    refine ⟨?_, fun _ => ⟨⟨hline, ?_⟩, hsound⟩⟩
    · rw [transcript_chunk hd, scanned]
      simp [State.afterScan, expectedAfter, expected, hopen, startsLine, unread, consume, c]
    · intro hne'
      simp only [consume, same]
      rw [List.getLast?_append_of_ne_nil _ hne']
  | case5 sc c hne shorter hd state chunk fault scanned =>
    simp only [fail, Prod.mk.injEq] at h
    obtain ⟨rfl, rfl⟩ := h
    refine ⟨?_, by simp⟩
    rw [transcript_chunk hd, scanned]
    simp [State.afterScan, expectedAfter]
  | case6 sc c hne shorter hd state chunk scanned _ ih =>
    rw [transcript_chunk hd, scanned]
    exact ih h hchunk hopen hsound

/-- A call shows what the transcript lists first, and leaves what it lists behind that. -/
theorem transcript_next {sc sc' : Scanner} {answer : Answer} (h : sc.next = (sc', answer))
    (haligned : sc.Aligned) (hopen : sc.finished = false) (hsound : sc.source.failure = none) :
    sc.state.transcript sc.settings sc.startsLine sc.unread = sc'.expectedAfter answer ∧
      (sc'.finished = false → sc'.Aligned ∧ sc'.source.failure = none) := by
  have hread : sc.state.transcript sc.settings sc.startsLine sc.unread =
      State.afterScan sc.settings sc.atLineStart sc.source.bytes
        (sc.state.scan sc.settings.limit sc.chunk) := by
    by_cases hchunk : sc.chunk = []
    · simp [State.afterScan, startsLine, unread, hchunk]
    · rw [haligned.atLineStart hchunk,
        ← State.transcript_append sc.settings sc.state haligned.withinLine sc.source.bytes]
      rw [startsLine, List.isEmpty_eq_false_iff.mpr hchunk, Bool.false_and, unread]
  simp only [next, hopen, Bool.false_eq_true, ↓reduceIte] at h
  rcases hscan : sc.state.scan sc.settings.limit sc.chunk with ⟨t, chunk, stop⟩
  rw [hread, hscan]
  simp only [hscan] at h
  rcases stop with _ | (fault | statement)
  · exact transcript_refill h rfl rfl hsound
  · simp only [fail, Prod.mk.injEq] at h
    obtain ⟨rfl, rfl⟩ := h
    exact ⟨by simp [State.afterScan, expectedAfter], by simp⟩
  · simp only [Prod.mk.injEq] at h
    obtain ⟨rfl, rfl⟩ := h
    obtain ⟨read, hne, same⟩ := State.exists_of_scan hscan
    refine ⟨?_, fun _ => ⟨⟨WithinLine.of_append (same ▸ haligned.withinLine), ?_⟩, hsound⟩⟩
    · simp [State.afterScan, expectedAfter, expected, startsLine, unread]
    · intro hne'
      have hsome : sc.chunk ≠ [] := by simp [same, hne]
      rw [haligned.atLineStart hsome, same, List.getLast?_append_of_ne_nil _ hne']

/-- The results of an unfinished scanner of a sound stream are those of the transcript. -/
theorem results_eq_transcript {sc : Scanner} (haligned : sc.Aligned) (hopen : sc.finished = false)
    (hsound : sc.source.failure = none) :
    sc.results = sc.state.transcript sc.settings sc.startsLine sc.unread := by
  fun_induction results sc with
  | case1 sc sc' statement called ih =>
    obtain ⟨hnext, hlater⟩ := transcript_next called haligned hopen hsound
    rw [hnext, expectedAfter, List.cons.injEq]
    refine ⟨rfl, ?_⟩
    by_cases hfinished : sc'.finished = true
    · rw [results_of_finished hfinished, expected, if_pos hfinished]
    · have hopen' : sc'.finished = false := by simpa using hfinished
      obtain ⟨haligned', hsound'⟩ := hlater hopen'
      rw [ih haligned' hopen' hsound', expected_of_open hopen']
  | case2 sc sc' answer hlast called =>
    rw [(transcript_next called haligned hopen hsound).1, expectedAfter]
    exact fun statement => hlast statement

/-- What a scanner of a sound stream yields, call after call. -/
theorem results_ofSource (bytes : List UInt8) (settings : Settings) (offset : Nat) (d : Delimiter) :
    (ofSource ⟨bytes, none⟩ settings offset d).results =
      (State.initial offset d).transcript settings.inEffect (offset == 0) bytes :=
  results_eq_transcript (aligned_ofSource _ _ _ _) rfl rfl

end Scanner

namespace Scan

variable {settings : Settings} {bytes : List UInt8} {results : List Result}

/-- No text was too large. -/
def Fits (results : List Result) : Prop :=
  ∀ r ∈ results, ∀ limit offset, r.answer ≠ .error (.statementTooLarge limit offset)

theorem fits_cons {r : Result}
    (hr : ∀ limit offset, r.answer ≠ .error (.statementTooLarge limit offset))
    (h : Fits results) : Fits (r :: results) := by
  intro r' hr'
  rcases List.mem_cons.mp hr' with rfl | hmem
  · exact hr
  · exact h r' hmem

theorem fits_take {s t : State} {atBoundary : Bool} {answer : Scanner.Answer}
    (h : s.take atBoundary = (t, answer)) : Fits [t.shown answer] := by
  refine fits_cons (fun limit offset hlarge => ?_) (by simp [Fits])
  have herror : (s.take atBoundary).2 = .error (.statementTooLarge limit offset) := by
    rw [h]
    exact hlarge
  exact absurd (State.take_error herror) (by simp)

theorem fits_transcript {s : State} {lineStart : Bool}
    (h : s.size + bytes.length ≤ settings.limit) :
    Fits (s.transcript settings lineStart bytes) := by
  fun_induction State.transcript settings s lineStart bytes with
  | case1 s lineStart bytes d' hd' c =>
    rename_i ih
    have hrest : c.rest.length < bytes.length :=
      Chunk.length_rest_lt (State.cut_ne_nil_of_directiveAt? hd')
    have hsize : (s.obey d' c.bytes.length).size = s.size := rfl
    exact ih (by omega)
  | case2 s lineStart _ t last htake =>
    exact fits_cons (by simp [State.shown]) (fits_cons (by simp [State.shown]) (by simp [Fits]))
  | case3 s lineStart _ t answer hlast htake => exact fits_take htake
  | case4 s lineStart b bytes _ t hstep ih =>
    have hgrows := State.step_grows hstep
    rw [List.length_cons] at h
    exact ih (by omega)
  | case5 s lineStart b bytes _ t hstep =>
    have hgrows := (State.step_grows hstep).2 rfl
    rw [List.length_cons] at h
    omega
  | case6 s lineStart b bytes _ t hstep u htake ih =>
    have hsize := State.size_take t true
    simp only [htake] at hsize
    rw [List.length_cons] at h
    exact ih (by omega)
  | case7 s lineStart b bytes _ t hstep u yielded htake ih =>
    have hsize := State.size_take t true
    simp only [htake] at hsize
    rw [List.length_cons] at h
    exact fits_cons (by simp [State.shown]) (ih (by omega))
  | case8 s lineStart b bytes _ t hstep u fault htake => exact fits_take htake

/-- A dump that is no longer than the limit has no text that is too large. -/
theorem fits_of_length_le (offset : Nat) (d : Delimiter) (h : bytes.length ≤ settings.limit) :
    Fits (Scanner.ofSource ⟨bytes, none⟩ settings offset d).results := by
  rw [Scanner.results_ofSource]
  exact fits_transcript (by
    simp only [State.initial, Settings.inEffect]
    omega)

end Scan

end SqlBackup
