import SqlBackup.Proofs.Scan.Effect
import SqlBackup.Proofs.Scan.Transcript

/-!
# The moves of a scanner

Between two answers a scanner reads bytes, cuts chunks off its stream and obeys directives. A move
is one of these, and a log lists the bytes and the directives in the order in which they were read.
The main statements are that every call for the next statement is such moves, of which at most the
last shows anything, and that the moves determine the call.
-/
namespace SqlBackup

namespace Scan

/-- What comes of reading a byte. -/
inductive Outcome where
  | more
  /-- The text ended there. It was this statement, or blank. -/
  | ended (statement? : Option Statement)
  | failed (fault : Fault)

/-- Whether a scanner stops there for good. -/
def Outcome.isFailure : Outcome → Bool
  | .failed _ => true
  | _ => false

/-- Reads one byte, and takes the text out where it ends. -/
def State.read (limit : Nat) (s : State) (b : UInt8) : State × Outcome :=
  match s.step limit b with
  | (t, .more) => (t, .more)
  | (t, .tooLarge) => (t, .failed (.statementTooLarge limit t.position))
  | (t, .boundary) =>
      match t.take true with
      | (u, .ok statement?) => (u, .ended statement?)
      | (u, .error fault) => (u, .failed fault)

theorem State.scan_eq_read (limit : Nat) (s : State) (b : UInt8) (bytes : List UInt8) :
    s.scan limit (b :: bytes) =
      match s.read limit b with
      | (t, .more) => t.scan limit bytes
      | (t, .ended none) => t.scan limit bytes
      | (t, .ended (some statement)) => (t, bytes, some (.ok statement))
      | (t, .failed fault) => (t, bytes, some (.error fault)) := by
  rw [scan, read]
  rcases s.step limit b with ⟨t, signal⟩
  cases signal with
  | more => rfl
  | tooLarge => rfl
  | boundary =>
    dsimp only
    rcases t.take true with ⟨u, fault | (_ | statement)⟩ <;> rfl

/-- What comes of taking a text out at its delimiter. -/
def Outcome.ofTake : Scanner.Answer → Outcome
  | .ok statement? => .ended statement?
  | .error fault => .failed fault

/-- What a byte can come to. -/
inductive State.ComesTo (limit : Nat) (s : State) (b : UInt8) : State → Outcome → Prop where
  | refused : (s.effect b).1.exceeds limit s.size = true →
      ComesTo limit s b { s.moved b with mode := s.refusalMode }
        (.failed (.statementTooLarge limit (s.position + 1)))
  | more : (s.effect b).1.exceeds limit s.size = false → s.completes b = false →
      ComesTo limit s b (s.moved b) .more
  | taken {t : State} {answer : Scanner.Answer} : (s.effect b).1.exceeds limit s.size = false →
      s.completes b = true → (s.moved b).take true = (t, answer) →
      ComesTo limit s b t (.ofTake answer)

theorem State.comesTo_of_read {limit : Nat} {s t : State} {b : UInt8} {outcome : Outcome}
    (h : s.read limit b = (t, outcome)) : ComesTo limit s b t outcome := by
  unfold read at h
  cases hexceeds : (s.effect b).1.exceeds limit s.size with
  | true =>
    rw [step_of_exceeds hexceeds] at h
    obtain ⟨rfl, rfl⟩ := Prod.mk.inj h
    exact .refused hexceeds
  | false =>
    rw [step_of_fits hexceeds] at h
    cases hcompletes : s.completes b with
    | false =>
      rw [hcompletes] at h
      obtain ⟨rfl, rfl⟩ := Prod.mk.inj h
      exact .more hexceeds hcompletes
    | true =>
      rw [hcompletes] at h
      rcases htake : (s.moved b).take true with ⟨u, fault | statement?⟩
      all_goals
        simp only [htake, ↓reduceIte] at h
        obtain ⟨rfl, rfl⟩ := Prod.mk.inj h
        exact .taken hexceeds hcompletes htake

theorem State.read_frame {limit : Nat} {s t : State} {b : UInt8} {outcome : Outcome}
    (h : s.read limit b = (t, outcome)) :
    t.position = s.position + 1 ∧ t.delimiter = s.delimiter := by
  cases comesTo_of_read h with
  | refused => exact ⟨rfl, delimiter_moved s b⟩
  | more => exact ⟨rfl, delimiter_moved s b⟩
  | taken _ _ htake =>
    obtain ⟨hdelimiter, hposition⟩ := take_frame htake
    exact ⟨hposition, hdelimiter.trans (delimiter_moved s b)⟩

/-- What comes of the byte at which a scan stops. -/
def Outcome.ofStop : Except Fault Statement → Outcome
  | .ok statement => .ended (some statement)
  | .error fault => .failed fault

/-- A byte as it was read. -/
structure Reading where
  before : State
  byte : UInt8
  after : State
  outcome : Outcome

/-- A part of a stream as it was read. -/
inductive Entry where
  | reading (r : Reading)
  /-- A chunk that set this delimiter. -/
  | directive (chunk : List UInt8) (d : Delimiter)

/-- The bytes that were read. -/
def Entry.bytes : Entry → List UInt8
  | .reading r => [r.byte]
  | .directive chunk _ => chunk

/-- No statement was yielded, and nothing failed. -/
def Quiet (log : List Entry) : Prop :=
  ∀ r, .reading r ∈ log → r.outcome = .more ∨ r.outcome = .ended none

theorem quiet_nil : Quiet [] := by simp [Quiet]

theorem Quiet.append {log log' : List Entry} (h : Quiet log) (h' : Quiet log') :
    Quiet (log ++ log') := by
  intro r hr
  rcases List.mem_append.mp hr with hmem | hmem
  · exact h r hmem
  · exact h' r hmem

theorem Quiet.of_append {log log' : List Entry} (h : Quiet (log ++ log')) : Quiet log ∧ Quiet log' :=
  ⟨fun r hr => h r (List.mem_append_left _ hr), fun r hr => h r (List.mem_append_right _ hr)⟩

theorem quiet_directive (chunk : List UInt8) (d : Delimiter) : Quiet [.directive chunk d] := by
  simp [Quiet]

end Scan

open Scan

namespace Scanner

/-- A chunk that a scanner goes on with when it has read all of the one before. -/
structure Loads (sc : Scanner) (c : Chunk) : Prop where
  isOpen : sc.finished = false
  empty : sc.chunk = []
  cut : Chunk.cut (sc.settings.room + 1) sc.source.bytes = c
  whole : c.complete = true ∨ sc.source.failure = none
  nonempty : c.bytes ≠ []

/-- What a scanner does next, but for an end of its stream. -/
inductive Move : Scanner → List Entry → Scanner → Prop where
  | read {sc : Scanner} {b : UInt8} {chunk : List UInt8} {t : State} {outcome : Outcome} :
      sc.finished = false → sc.chunk = b :: chunk →
      sc.state.read sc.settings.limit b = (t, outcome) →
      Move sc [.reading ⟨sc.state, b, t, outcome⟩]
        { sc with state := t, chunk, finished := outcome.isFailure }
  | load {sc : Scanner} {c : Chunk} : sc.Loads c → sc.directiveIn? c.bytes = none →
      Move sc [] { sc.consume c with chunk := c.bytes }
  | obey {sc : Scanner} {c : Chunk} {d : Delimiter} : sc.Loads c →
      sc.directiveIn? c.bytes = some d →
      Move sc [.directive c.bytes d] ((sc.consume c).obey d c.bytes.length)

/-- One move after the other. -/
inductive Moves (sc : Scanner) : List Entry → Scanner → Prop where
  | refl : Moves sc [] sc
  | tail {sc' sc'' : Scanner} {log entries : List Entry} :
      Moves sc log sc' → Move sc' entries sc'' → Moves sc (log ++ entries) sc''

variable {sc sc' sc'' : Scanner} {log log' entries : List Entry} {answer : Answer}

theorem Moves.single (h : Move sc log sc') : Moves sc log sc' := by
  simpa using Moves.tail .refl h

theorem Moves.trans (h : Moves sc log sc') (h' : Moves sc' log' sc'') :
    Moves sc (log ++ log') sc'' := by
  induction h' with
  | refl => simpa using h
  | tail _ hmove ih => simpa using ih.tail hmove

/-- The last entry of a log is that of the last move that read anything. -/
theorem Moves.exists_of_concat {e : Entry} (h : Moves sc (log ++ [e]) sc') :
    ∃ last next, Moves sc log last ∧ Move last [e] next := by
  generalize hall : log ++ [e] = all at h
  induction h with
  | refl => simp at hall
  | @tail last next front entries hmoves hmove ih =>
    have hone : entries = [] ∨ ∃ e', entries = [e'] := by
      cases hmove with
      | read => exact .inr ⟨_, rfl⟩
      | load => exact .inl rfl
      | obey => exact .inr ⟨_, rfl⟩
    rcases hone with rfl | ⟨e', rfl⟩
    · rw [List.append_nil] at hall
      exact ih hall
    · obtain ⟨rfl, he⟩ := List.append_inj' hall rfl
      rw [he]
      exact ⟨last, next, hmoves, hmove⟩

theorem Loads.bytes_eq {c : Chunk} (h : sc.Loads c) : sc.source.bytes = c.bytes ++ c.rest := by
  rw [← h.cut, Chunk.cut_append]

/-- What a scanner keeps to, and what it has not read yet. -/
structure Reads (sc : Scanner) (log : List Entry) (sc' : Scanner) : Prop where
  settings : sc'.settings = sc.settings
  failure : sc'.source.failure = sc.source.failure
  unread : sc.unread = log.flatMap Entry.bytes ++ sc'.unread
  position : sc'.position = sc.position + (log.flatMap Entry.bytes).length

theorem Move.reads (h : Move sc log sc') : Reads sc log sc' := by
  cases h with
  | read hopen hchunk hread =>
    have hposition := (State.read_frame hread).1
    exact ⟨rfl, rfl, by simp [unread, hchunk, Entry.bytes], by simp [position, Entry.bytes, hposition]⟩
  | load hloads hd =>
    refine ⟨rfl, rfl, ?_, rfl⟩
    simp [unread, consume, hloads.empty, hloads.bytes_eq]
  | obey hloads hd =>
    refine ⟨rfl, rfl, ?_, ?_⟩
    · simp [unread, consume, Scanner.obey, hloads.empty, hloads.bytes_eq, Entry.bytes]
    · simp [position, Scanner.obey, Entry.bytes, consume]

theorem Moves.reads (h : Moves sc log sc') : Reads sc log sc' := by
  induction h with
  | refl => exact ⟨rfl, rfl, rfl, rfl⟩
  | tail _ hmove ih =>
    have hlast := hmove.reads
    refine ⟨hlast.settings.trans ih.settings, hlast.failure.trans ih.failure, ?_, ?_⟩
    · rw [ih.unread, hlast.unread, List.flatMap_append, List.append_assoc]
    · rw [hlast.position, ih.position, List.flatMap_append, List.length_append, Nat.add_assoc]

/-- What is known when a scan of what is left of a chunk is over. -/
def Scanned (sc : Scanner) : State × List UInt8 × Option (Except Fault Statement) → Prop
  | (t, _, none) => ∃ log, Quiet log ∧ Moves sc log { sc with state := t, chunk := [] }
  | (t, rest, some stop) => ∃ log last r, Quiet log ∧ Moves sc log last ∧
      r.outcome = .ofStop stop ∧
      Move last [.reading r]
        { sc with state := t, chunk := rest, finished := (Outcome.ofStop stop).isFailure }

theorem Scanned.cons {result : State × List UInt8 × Option (Except Fault Statement)} {u : State}
    {chunk : List UInt8} {r : Reading} (hr : Quiet [.reading r])
    (hmove : Move sc [.reading r] { sc with state := u, chunk })
    (h : Scanned { sc with state := u, chunk } result) : sc.Scanned result := by
  obtain ⟨t, rest, _ | stop⟩ := result
  · obtain ⟨log, hquiet, hmoves⟩ := h
    exact ⟨[.reading r] ++ log, hr.append hquiet, (Moves.single hmove).trans hmoves⟩
  · obtain ⟨log, last, r', hquiet, hmoves, hstops⟩ := h
    exact ⟨[.reading r] ++ log, last, r', hr.append hquiet, (Moves.single hmove).trans hmoves, hstops⟩

theorem scanned_scan (hopen : sc.finished = false) :
    sc.Scanned (sc.state.scan sc.settings.limit sc.chunk) := by
  induction hchunk : sc.chunk generalizing sc with
  | nil =>
    refine ⟨[], quiet_nil, ?_⟩
    rw [← hchunk]
    exact .refl
  | cons b chunk ih =>
    rcases hread : sc.state.read sc.settings.limit b with ⟨t, outcome⟩
    have hmove := Move.read hopen hchunk hread
    rw [State.scan_eq_read, hread]
    rcases outcome with _ | (_ | statement) | fault
    · simp only [Outcome.isFailure, ← hopen] at hmove
      exact .cons (by simp [Quiet]) hmove (@ih { sc with state := t, chunk } hopen rfl)
    · simp only [Outcome.isFailure, ← hopen] at hmove
      exact .cons (by simp [Quiet]) hmove (@ih { sc with state := t, chunk } hopen rfl)
    · exact ⟨[], sc, _, quiet_nil, .refl, rfl, hmove⟩
    · exact ⟨[], sc, _, quiet_nil, .refl, rfl, hmove⟩

/-- How a call for the next statement goes. -/
inductive Calls (sc : Scanner) : Scanner → Answer → Prop where
  | yields {log : List Entry} {r : Reading} {last sc' : Scanner} {statement : Statement} :
      Quiet log → Moves sc log last → Move last [.reading r] sc' →
      r.outcome = .ended (some statement) → Calls sc sc' (.ok (some statement))
  | fails {log : List Entry} {r : Reading} {last sc' : Scanner} {fault : Fault} : Quiet log →
      Moves sc log last → Move last [.reading r] sc' → r.outcome = .failed fault →
      Calls sc sc' (.error fault)
  | ends {log : List Entry} {last : Scanner} : Quiet log → Moves sc log last →
      last.finished = false → last.unread = [] → last.source.failure = none →
      Calls sc last.finish.1 last.finish.2
  | breaksOff {log : List Entry} {last : Scanner} {failure : StreamFault} : Quiet log →
      Moves sc log last → last.finished = false → last.chunk = [] →
      (Chunk.cut (last.settings.room + 1) last.source.bytes).complete = false →
      last.source.failure = some failure →
      Calls sc { last with finished := true } (.error (.ofStream last.settings.name failure))

theorem Calls.cons (hquiet : Quiet log) (hmoves : Moves sc log sc') (h : Calls sc' sc'' answer) :
    Calls sc sc'' answer := by
  cases h with
  | yields hquiet' hmoves' hmove houtcome =>
    exact .yields (hquiet.append hquiet') (hmoves.trans hmoves') hmove houtcome
  | fails hquiet' hmoves' hmove houtcome =>
    exact .fails (hquiet.append hquiet') (hmoves.trans hmoves') hmove houtcome
  | ends hquiet' hmoves' hopen hunread hsound =>
    exact .ends (hquiet.append hquiet') (hmoves.trans hmoves') hopen hunread hsound
  | breaksOff hquiet' hmoves' hopen hchunk hcut hfailure =>
    exact .breaksOff (hquiet.append hquiet') (hmoves.trans hmoves') hopen hchunk hcut hfailure

/-- A scan of what is left of a chunk that stops is a call. -/
theorem calls_of_scan {t : State} {rest : List UInt8} {stop : Except Fault Statement}
    (hopen : sc.finished = false)
    (h : sc.state.scan sc.settings.limit sc.chunk = (t, rest, some stop)) :
    Calls sc { sc with state := t, chunk := rest, finished := (Outcome.ofStop stop).isFailure }
      (stop.map some) := by
  have hscanned := scanned_scan hopen
  rw [h] at hscanned
  obtain ⟨log, last, r, hquiet, hmoves, hr, hmove⟩ := hscanned
  rcases stop with fault | statement
  · exact .fails hquiet hmoves hmove hr
  · exact .yields hquiet hmoves hmove hr

/-- A scan that does not stop comes before what else a call does. -/
theorem Calls.scan {t : State} {rest : List UInt8} (hopen : sc.finished = false)
    (hscan : sc.state.scan sc.settings.limit sc.chunk = (t, rest, none))
    (h : Calls { sc with state := t, chunk := [] } sc' answer) : Calls sc sc' answer := by
  have hscanned := scanned_scan hopen
  rw [hscan] at hscanned
  obtain ⟨log, hquiet, hmoves⟩ := hscanned
  exact .cons hquiet hmoves h

theorem loads_of_cut {c : Chunk} (hopen : sc.finished = false) (hempty : sc.chunk = [])
    (hcut : Chunk.cut (sc.settings.room + 1) sc.source.bytes = c) (hne : c.bytes ≠ [])
    (hno : ∀ failure, c.complete = false → sc.source.failure = some failure → False) :
    sc.Loads c := by
  refine ⟨hopen, hempty, hcut, ?_, hne⟩
  by_contra hneither
  simp only [not_or, Bool.not_eq_true, ← ne_eq, Option.ne_none_iff_exists'] at hneither
  obtain ⟨failure, hfailure⟩ := hneither.2
  exact hno failure hneither.1 hfailure

/-- Behind a chunk that is no directive a scanner goes on with that chunk. -/
theorem calls_load {c : Chunk} (hloads : sc.Loads c) (hd : sc.directiveIn? c.bytes = none)
    (h : Calls { sc.consume c with chunk := c.bytes } sc' answer) : Calls sc sc' answer :=
  .cons quiet_nil (.single (.load hloads hd)) h

theorem calls_refill (h : sc.refill = (sc', answer)) (hopen : sc.finished = false)
    (hempty : sc.chunk = []) : Calls sc sc' answer := by
  fun_induction refill sc with
  | case1 sc c failure hfailure hcomplete =>
    obtain ⟨rfl, rfl⟩ := Prod.mk.inj h
    exact .breaksOff quiet_nil .refl hopen hempty hcomplete hfailure
  | case2 sc c hnil hno =>
    have hbytes : sc.source.bytes = [] := cut_eq_nil hnil
    have hsound : sc.source.failure = none := by
      by_contra hfails
      obtain ⟨failure, hfailure⟩ := Option.ne_none_iff_exists'.mp hfails
      exact hno failure (by simp [c, hbytes, Chunk.cut]) hfailure
    have hends : Calls sc sc.finish.1 sc.finish.2 :=
      .ends quiet_nil .refl hopen (by simp [unread, hempty, hbytes]) hsound
    rwa [h] at hends
  | case3 sc c hne shorter d hd hno ih =>
    exact .cons (quiet_directive c.bytes d) (.single (.obey (loads_of_cut hopen hempty rfl hne hno) hd))
      (ih h hopen hempty)
  | case4 sc c hne shorter hd state chunk statement scanned hno =>
    obtain ⟨rfl, rfl⟩ := Prod.mk.inj h
    apply calls_load (loads_of_cut hopen hempty rfl hne hno) hd
    have hcalls := @calls_of_scan { sc.consume c with chunk := c.bytes } _ _ _ hopen scanned
    have hgoesOn : (Outcome.ofStop (.ok statement)).isFailure = sc.finished := hopen.symm
    rwa [hgoesOn] at hcalls
  | case5 sc c hne shorter hd state chunk fault scanned hno =>
    obtain ⟨rfl, rfl⟩ := Prod.mk.inj h
    apply calls_load (loads_of_cut hopen hempty rfl hne hno) hd
    exact @calls_of_scan { sc.consume c with chunk := c.bytes } _ _ _ hopen scanned
  | case6 sc c hne shorter hd state chunk scanned hno ih =>
    apply calls_load (loads_of_cut hopen hempty rfl hne hno) hd
    apply @Calls.scan { sc.consume c with chunk := c.bytes } _ _ _ _ hopen scanned
    rw [← hempty] at ih ⊢
    exact ih h hopen rfl

/-- Every call for the next statement is such moves. -/
theorem calls_next (h : sc.next = (sc', answer)) (hopen : sc.finished = false) :
    Calls sc sc' answer := by
  rw [next, if_neg (by simp [hopen])] at h
  rcases hscan : sc.state.scan sc.settings.limit sc.chunk with ⟨t, rest, _ | (fault | statement)⟩
  · simp only [hscan] at h
    exact .scan hopen hscan (calls_refill h hopen rfl)
  · simp only [hscan] at h
    obtain ⟨rfl, rfl⟩ := Prod.mk.inj h
    exact calls_of_scan hopen hscan
  · simp only [hscan] at h
    obtain ⟨rfl, rfl⟩ := Prod.mk.inj h
    have hcalls := calls_of_scan hopen hscan
    have hgoesOn : (Outcome.ofStop (.ok statement)).isFailure = sc.finished := hopen.symm
    rwa [hgoesOn] at hcalls

theorem calls_of_open (hopen : sc.finished = false) : Calls sc sc.next.1 sc.next.2 :=
  calls_next rfl hopen

theorem Reads.position_le (h : Reads sc log sc') : sc.position ≤ sc'.position := by
  rw [h.position]
  exact Nat.le_add_right _ _

/-- A call does not go back. -/
theorem Calls.position_le (h : Calls sc sc' answer) : sc.position ≤ sc'.position := by
  cases h with
  | yields _ hmoves hmove _ => exact hmoves.reads.position_le.trans hmove.reads.position_le
  | fails _ hmoves hmove _ => exact hmoves.reads.position_le.trans hmove.reads.position_le
  | @ends log last _ hmoves _ _ _ =>
    rcases htake : { last.state with mode := .code }.take false with ⟨t, reply⟩
    simp only [finish, htake]
    exact hmoves.reads.position_le.trans_eq (State.take_frame htake).2.symm
  | breaksOff _ hmoves _ _ _ _ => exact hmoves.reads.position_le

theorem position_le_next (h : sc.next = (sc', answer)) : sc.position ≤ sc'.position := by
  by_cases hfinished : sc.finished = true
  · obtain ⟨rfl, -⟩ := Prod.mk.inj ((next_of_finished hfinished).symm.trans h)
    exact le_rfl
  · exact (calls_next h (by simpa using hfinished)).position_le

/-! ### From moves to calls -/

/-- What a call comes to behind a scan of what is left of a chunk. -/
def concluded (sc : Scanner) :
    State × List UInt8 × Option (Except Fault Statement) → Scanner × Answer
  | (state, chunk, some (.ok statement)) => ({ sc with state, chunk }, .ok (some statement))
  | (state, chunk, some (.error fault)) => { sc with state, chunk }.fail fault
  | (state, _, none) => { sc with state, chunk := [] }.refill

theorem next_of_open (hopen : sc.finished = false) :
    sc.next = sc.concluded (sc.state.scan sc.settings.limit sc.chunk) := by
  rw [next, if_neg (by simp [hopen])]
  rcases sc.state.scan sc.settings.limit sc.chunk with ⟨t, rest, _ | (fault | statement)⟩ <;> rfl

theorem next_of_empty (hopen : sc.finished = false) (hempty : sc.chunk = []) :
    sc.next = sc.refill := by
  rw [next_of_open hopen, hempty, State.scan_nil, concluded, ← hempty]

/-- What a scanner does with a chunk that it goes on with. -/
theorem refill_of_loads {c : Chunk} (h : sc.Loads c) :
    sc.refill =
      match sc.directiveIn? c.bytes with
      | some d => ((sc.consume c).obey d c.bytes.length).refill
      | none => (sc.consume c).concluded (sc.state.scan sc.settings.limit c.bytes) := by
  obtain ⟨-, hempty, rfl, hwhole, hne⟩ := h
  rw [refill]
  split
  · next hcomplete hfails =>
    simp [hcomplete, hfails] at hwhole
  · rw [dif_neg hne]
    cases sc.directiveIn? (Chunk.cut (sc.settings.room + 1) sc.source.bytes).bytes with
    | some d => rfl
    | none =>
      dsimp only
      rcases sc.state.scan sc.settings.limit _ with ⟨t, rest, _ | (fault | statement)⟩
      · rw [concluded, ← hempty]
        rfl
      · rfl
      · rfl

/-- A move that shows nothing is a part of the call. -/
theorem next_of_move (h : Move sc log sc') (hquiet : Quiet log) : sc.next = sc'.next := by
  cases h with
  | @read b chunk t outcome hopen hchunk hread =>
    have hgoesOn : outcome.isFailure = false := by
      rcases hquiet _ (List.mem_singleton_self _) with hmore | hended
      · exact congrArg Outcome.isFailure hmore
      · exact congrArg Outcome.isFailure hended
    have hscan : sc.state.scan sc.settings.limit sc.chunk = t.scan sc.settings.limit chunk := by
      rw [hchunk, State.scan_eq_read, hread]
      rcases hquiet _ (List.mem_singleton_self _) with hmore | hended
      · obtain rfl : outcome = .more := hmore
        rfl
      · obtain rfl : outcome = .ended none := hended
        rfl
    rw [next_of_open hopen, next_of_open hgoesOn, hscan, hgoesOn, ← hopen]
    rcases t.scan sc.settings.limit chunk with ⟨u, rest, _ | (fault | statement)⟩ <;> rfl
  | @load c hloads hd =>
    rw [next_of_empty hloads.isOpen hloads.empty, refill_of_loads hloads, hd,
      @next_of_open { sc.consume c with chunk := c.bytes } hloads.isOpen]
    dsimp only
    rcases hscan : sc.state.scan sc.settings.limit c.bytes with ⟨u, rest, _ | (fault | statement)⟩
    all_goals simp only [consume, hscan]; rfl
  | @obey c d hloads hd =>
    rw [next_of_empty hloads.isOpen hloads.empty, refill_of_loads hloads, hd]
    exact (@next_of_empty ((sc.consume c).obey d c.bytes.length) hloads.isOpen hloads.empty).symm

theorem next_of_moves (h : Moves sc log sc') (hquiet : Quiet log) : sc.next = sc'.next := by
  induction h with
  | refl => rfl
  | tail _ hmove ih =>
    obtain ⟨hfront, hlast⟩ := hquiet.of_append
    exact (ih hfront).trans (next_of_move hmove hlast)

/-- The byte at which a call stops. -/
theorem next_of_stop {r : Reading} {stop : Except Fault Statement} (h : Move sc [.reading r] sc')
    (hr : r.outcome = .ofStop stop) : sc.next = (sc', stop.map some) := by
  cases h with
  | @read b chunk t outcome hopen hchunk hread =>
    obtain rfl : outcome = .ofStop stop := hr
    rw [next_of_open hopen, hchunk, State.scan_eq_read, hread]
    rcases stop with fault | statement
    · rfl
    · simp only [concluded, Outcome.ofStop, Outcome.isFailure, ← hopen]
      rfl

/-- There is no other way for a call to go. -/
theorem next_of_calls (h : Calls sc sc' answer) : sc.next = (sc', answer) := by
  cases h with
  | @yields log r last sc' statement hquiet hmoves hmove houtcome =>
    rw [next_of_moves hmoves hquiet]
    exact @next_of_stop last sc' r (.ok statement) hmove houtcome
  | @fails log r last sc' fault hquiet hmoves hmove houtcome =>
    rw [next_of_moves hmoves hquiet]
    exact @next_of_stop last sc' r (.error fault) hmove houtcome
  | @ends log last hquiet hmoves hopen hunread hsound =>
    obtain ⟨hempty, hbytes⟩ := List.append_eq_nil_iff.mp hunread
    rw [next_of_moves hmoves hquiet, next_of_empty hopen hempty, refill]
    simp [hbytes, hsound, Chunk.cut]
  | @breaksOff log last failure hquiet hmoves hopen hempty hcut hfails =>
    rw [next_of_moves hmoves hquiet, next_of_empty hopen hempty, refill]
    simp [hcut, hfails, fail]

end Scanner

end SqlBackup
