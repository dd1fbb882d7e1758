import SqlBackup.Proofs.Scan.Counting
import SqlBackup.Proofs.Scan.Held

/-!
# Where statements end

The delimiter is looked for in the text that is held, which is not the stream: comments are left out
of it, blanks stand in for them, and bytes are taken back. The main statement is that it is found
where the stream spells it in code, and nowhere else, whichever delimiters the lines of the stream
set. What carries this is the run of code that was read last: the text that is held ends with it, and
what stands in front of it there ends with a quote or a blank.
-/
namespace SqlBackup

namespace Scan

open Text

/-- Whether a byte was read in code and left the scanner in code. -/
def Reading.InCode (r : Reading) : Prop := r.before.mode = .code ∧ r.after.mode = .code

instance (r : Reading) : Decidable r.InCode :=
  inferInstanceAs (Decidable (r.before.mode = .code ∧ r.after.mode = .code))

/-- Whether nothing came of a byte. -/
def Outcome.goesOn : Outcome → Bool
  | .more => true
  | _ => false

/-- What one entry more makes of the run of code that a log ends with. -/
def extendRun (run : List Reading) : Entry → List Reading
  | .reading r => if r.InCode ∧ r.outcome.goesOn = true then run ++ [r] else []
  | .directive _ _ => []

/-- The run of code that a log ends with. No text ended in it. -/
def codeRun (log : List Entry) : List Reading := log.foldl extendRun []

theorem codeRun_concat (log : List Entry) (e : Entry) :
    codeRun (log ++ [e]) = extendRun (codeRun log) e := by
  simp [codeRun]

theorem codeRun_append {window : List Reading}
    (h : ∀ r ∈ window, r.InCode ∧ r.outcome.goesOn = true) (log : List Entry) :
    codeRun (log ++ window.map .reading) = codeRun log ++ window := by
  induction window generalizing log with
  | nil => simp
  | cons r window ih =>
    obtain ⟨hr, hwindow⟩ := List.forall_mem_cons.mp h
    have hone : codeRun (log ++ [.reading r]) = codeRun log ++ [r] := by
      rw [codeRun_concat, extendRun, if_pos hr]
    rw [List.map_cons, List.append_cons, ih hwindow, hone, List.append_assoc]
    rfl

theorem exists_codeRun (log : List Entry) :
    (∀ r ∈ codeRun log, r.InCode) ∧ ∃ front, log = front ++ (codeRun log).map .reading := by
  induction log using List.reverseRecOn with
  | nil => exact ⟨by simp [codeRun], [], rfl⟩
  | append_singleton log e ih =>
    obtain ⟨hrun, front, hfront⟩ := ih
    rw [codeRun_concat]
    cases e with
    | directive chunk d => exact ⟨by simp [extendRun], _, (List.append_nil _).symm⟩
    | reading r =>
      rw [extendRun]
      split
      · next hr =>
        refine ⟨?_, front, ?_⟩
        · rw [List.forall_mem_append]
          exact ⟨hrun, by simpa using hr.1⟩
        · rw [List.map_append, ← List.append_assoc, ← hfront]
          rfl
      · exact ⟨by simp, _, (List.append_nil _).symm⟩

namespace State

variable {limit : Nat} {s t : State} {b : UInt8} {text : List UInt8}

theorem codes_concat (text : List UInt8) (b : UInt8) : codes (text ++ [b]) = codes text ++ [⟨b, true⟩] := by
  simp [codes]

theorem Holds.codes_addition (h : s.Holds (codes text)) (b : UInt8) :
    ((s.addition b).on s).Holds (codes (text ++ [b])) := by
  rw [codes_concat]
  exact h.addition b true

theorem Holds.takeBack (h : s.Holds (codes text)) (hhead : s.pending.head? = some b)
    (hb : isAsciiBlank b = false) : ∃ text, s.unpush.Holds (codes text) := by
  obtain ⟨m, hm, rfl⟩ := h.exists_of_head? hhead
  obtain ⟨front, hfront⟩ := List.getLast?_eq_some_iff.mp hm
  rw [codes, List.getLast?_map, Option.map_eq_some_iff] at hm
  obtain ⟨c, hc, rfl⟩ := hm
  obtain ⟨text', rfl⟩ := List.getLast?_eq_some_iff.mp hc
  rw [codes_concat] at h
  exact ⟨text', h.unpush hb⟩

/-- What is held, where this run of code was read last: in code it is the text that is held, but for
what stands in front and cannot take part in a delimiter. -/
structure Stands (run : List UInt8) (s : State) : Prop where
  holds : ∃ text, s.Holds (codes text)
  quote : ∀ q, s.mode = .quoted q ∨ s.mode = .escaped q → isQuote q = true
  inCode : s.mode = .code → ∃ front, s.Holds (codes (front ++ run)) ∧
    ∀ b, front.getLast? = some b → isQuote b = true ∨ isAsciiBlank b = true

theorem stands_of_empty (h : s.Holds []) (hmode : s.mode = .code) : s.Stands [] := by
  constructor
  · exact ⟨[], h⟩
  · simp [hmode]
  · exact fun _ => ⟨[], h, by simp⟩

/-- Behind a quote or a blank a new run starts. -/
theorem stands_of_closed {mode : Mode} (h : s.Holds (codes (text ++ [b])))
    (hb : isQuote b = true ∨ isAsciiBlank b = true)
    (hquote : ∀ q, mode = .quoted q ∨ mode = .escaped q → isQuote q = true) :
    Stands [] { s with mode } := by
  constructor
  · exact ⟨_, h.of_eq rfl rfl rfl⟩
  · exact hquote
  · rw [← List.append_nil (text ++ [b])] at h
    exact fun _ => ⟨text ++ [b], h.of_eq rfl rfl rfl, by simpa using hb⟩

/-- Out of code there is no run. -/
theorem stands_of_mode {mode : Mode} (h : s.Holds (codes text)) (hmode : mode ≠ .code)
    (hquote : ∀ q, mode = .quoted q ∨ mode = .escaped q → isQuote q = true) :
    Stands [] { s with mode } := by
  constructor
  · exact ⟨_, h.of_eq rfl rfl rfl⟩
  · exact hquote
  · exact fun hcode => (hmode hcode).elim

/-- One byte of code more. -/
theorem Stands.extend {run : List UInt8} (h : s.Stands run) (hmode : s.mode = .code) (b : UInt8) :
    Stands (run ++ [b]) { (s.addition b).on s with mode := .code } := by
  obtain ⟨front, hfront, hlast⟩ := h.inCode hmode
  have hadded := hfront.codes_addition b
  rw [List.append_assoc] at hadded
  constructor
  · exact ⟨_, hadded.of_eq rfl rfl rfl⟩
  · simp
  · exact fun _ => ⟨front, hadded.of_eq rfl rfl rfl, hlast⟩

theorem Stands.turned_code {run : List UInt8} (h : s.Stands run) (hmode : s.mode = .code) (b : UInt8) :
    (s.turned b).Stands (if (s.turned b).mode = .code then run ++ [b] else []) := by
  obtain ⟨text, htext⟩ := h.holds
  have heffect := effect.eq_def s b
  simp only [hmode] at heffect
  split_ifs at heffect with hquote hhash hdash hstar
  · rw [turned_of_effect heffect]
    rw [← isQuote] at hquote
    exact stands_of_mode (htext.codes_addition b) (by simp) (by simpa using hquote)
  · rw [turned_of_effect heffect]
    exact stands_of_mode htext (by simp) (by simp)
  · rw [turned_of_effect heffect]
    rw [Bool.and_eq_true, beq_iff_eq, beq_iff_eq] at hdash
    obtain ⟨text', htext'⟩ := htext.takeBack hdash.2 (by decide)
    exact stands_of_mode (s := Effect.takeBack.on s) htext' (by simp) (by simp)
  · rw [turned_of_effect heffect]
    rw [Bool.and_eq_true, beq_iff_eq, beq_iff_eq] at hstar
    obtain ⟨text', htext'⟩ := htext.takeBack hstar.2 (by decide)
    exact stands_of_mode (s := Effect.takeBack.on s) htext' (by simp) (by simp)
  · rw [turned_of_effect heffect]
    exact h.extend hmode b

theorem Stands.turned_of_ne {run : List UInt8} (h : s.Stands run) (hmode : s.mode ≠ .code)
    (b : UInt8) : (s.turned b).Stands [] := by
  obtain ⟨text, htext⟩ := h.holds
  have heffect := effect.eq_def s b
  cases hs : s.mode with
  | code => exact (hmode hs).elim
  | quoted quote =>
    have hquote := h.quote quote (.inl hs)
    simp only [hs] at heffect
    rw [turned_of_effect heffect]
    split_ifs with hescape hclose
    · exact stands_of_mode (htext.codes_addition b) (by simp) (by simpa using hquote)
    · rw [beq_iff_eq] at hclose
      exact stands_of_closed (htext.codes_addition b) (.inl (by rwa [hclose])) (by simp)
    · exact stands_of_mode (htext.codes_addition b) (by simp) (by simpa using hquote)
  | escaped quote =>
    have hquote := h.quote quote (.inr hs)
    simp only [hs] at heffect
    rw [turned_of_effect heffect]
    exact stands_of_mode (htext.codes_addition b) (by simp) (by simpa using hquote)
  | lineComment =>
    simp only [hs] at heffect
    split_ifs at heffect with hfeed
    · rw [beq_iff_eq] at hfeed
      rw [turned_of_effect heffect]
      exact stands_of_closed (htext.codes_addition b) (.inr (by rw [hfeed]; decide)) (by simp)
    · rw [turned_of_effect heffect]
      exact stands_of_mode htext (by simp) (by simp)
  | blockComment star =>
    simp only [hs] at heffect
    split_ifs at heffect with hclose
    · rw [turned_of_effect heffect]
      exact stands_of_closed (htext.codes_addition 0x20) (.inr (by decide)) (by simp)
    · rw [turned_of_effect heffect]
      exact stands_of_mode htext (by simp) (by simp)

/-- What a byte makes of the run of code that was read last. -/
theorem Stands.moved {run : List UInt8} (h : s.Stands run) (b : UInt8) :
    (s.moved b).Stands
      (if s.mode = .code ∧ (s.moved b).mode = .code then run ++ [b] else []) := by
  have hturned : (s.turned b).Stands
      (if s.mode = .code ∧ (s.turned b).mode = .code then run ++ [b] else []) := by
    by_cases hmode : s.mode = .code
    · simp only [hmode, true_and]
      exact h.turned_code hmode b
    · simp only [hmode, false_and, ↓reduceIte]
      exact h.turned_of_ne hmode b
  obtain ⟨⟨text, htext⟩, hquote, hcode⟩ := hturned
  constructor
  · exact ⟨text, htext.of_eq rfl rfl rfl⟩
  · exact hquote
  · intro hmode
    obtain ⟨front, hfront, hlast⟩ := hcode hmode
    exact ⟨front, hfront.of_eq rfl rfl rfl, hlast⟩

/-- Where a byte completes the delimiter, the run of code ends with that. -/
theorem Stands.suffix_of_completes {run : List UInt8} (h : s.Stands run)
    (hcompletes : s.completes b = true)
    (hd : ∀ b ∈ s.delimiter.bytes, isQuote b = false ∧ isAsciiBlank b = false) :
    s.mode = .code ∧ (s.moved b).mode = .code ∧ s.delimiter.bytes <:+ run ++ [b] := by
  simp only [completes, Bool.and_eq_true, beq_iff_eq] at hcompletes
  obtain ⟨⟨⟨hmode, hmode'⟩, -⟩, hends⟩ := hcompletes
  have hstands := h.moved b
  rw [if_pos ⟨hmode, hmode'⟩] at hstands
  obtain ⟨front, hfront, hlast⟩ := hstands.inCode hmode'
  have hsuffix := hfront.atDelimiter_iff.mp hends
  rw [hfront.pending, map_byte_codes, delimiter_moved] at hsuffix
  exact ⟨hmode, hmode',
    suffix_of_suffix_append hd hlast (hsuffix.trans (List.dropWhile_suffix isAsciiBlank))⟩

/-- Where the run of code spells the delimiter, the last byte completes it. -/
theorem Stands.completes_of_suffix {run : List UInt8} (h : s.Stands run) (hmode : s.mode = .code)
    (hmode' : (s.moved b).mode = .code) (hne : s.delimiter.bytes ≠ [])
    (hd : ∀ b ∈ s.delimiter.bytes, isAsciiBlank b = false)
    (hsuffix : s.delimiter.bytes <:+ run ++ [b]) : s.completes b = true := by
  have hstands := h.moved b
  rw [if_pos ⟨hmode, hmode'⟩] at hstands
  obtain ⟨front, hfront, -⟩ := hstands.inCode hmode'
  have hpending : (s.moved b).delimiter.bytes <:+ (s.moved b).pending.reverse := by
    rw [hfront.pending, map_byte_codes, delimiter_moved]
    exact suffix_dropWhile hd (hsuffix.trans (List.suffix_append _ _))
  have hbegun : (s.moved b).begun = true := by
    rw [hfront.begun, Bool.not_eq_true', List.isEmpty_eq_false_iff]
    intro hnil
    rw [hnil, delimiter_moved] at hpending
    exact hne (List.suffix_nil.mp hpending)
  simp only [completes, Bool.and_eq_true, beq_iff_eq]
  exact ⟨⟨⟨hmode, hmode'⟩, hbegun⟩, hfront.atDelimiter_iff.mpr hpending⟩

end State

end Scan

open Scan Text

namespace Scanner

variable {sc sc' : Scanner} {log entries : List Entry}

/-- What is known of a scanner with this log. -/
structure Tracks (log : List Entry) (sc : Scanner) : Prop where
  stands : sc.finished = false → sc.state.Stands ((codeRun log).map (·.byte))
  notBlank : ∀ b ∈ sc.state.delimiter.bytes, isAsciiBlank b = false

theorem tracks_ofSource (source : Source) (settings : Settings) (offset : Nat) {d : Delimiter}
    (hd : ∀ b ∈ d.bytes, isAsciiBlank b = false) :
    Tracks [] (ofSource source settings offset d) :=
  ⟨fun _ => State.stands_of_empty (State.holds_initial offset d) rfl, hd⟩

theorem Tracks.read (h : Tracks log sc) {b : UInt8} {t : State} {outcome : Outcome}
    (hopen : sc.finished = false) (hread : sc.state.read sc.settings.limit b = (t, outcome))
    (hgoesOn : outcome.isFailure = false) :
    t.Stands ((codeRun (log ++ [.reading ⟨sc.state, b, t, outcome⟩])).map (·.byte)) := by
  have hstands := h.stands hopen
  rw [codeRun_concat, extendRun]
  cases State.comesTo_of_read hread with
  | refused => cases hgoesOn
  | more =>
    have hmoved := hstands.moved b
    simp only [Reading.InCode, Outcome.goesOn, and_true]
    split_ifs at hmoved ⊢ with hcode
    · simpa using hmoved
    · exact hmoved
  | @taken _ answer _ hcompletes htake =>
    have hheld := State.holds_take (sc.state.moved b) true
    have hmode := State.mode_take (sc.state.moved b) true
    rw [htake] at hheld hmode
    simp only [State.completes, Bool.and_eq_true, beq_iff_eq] at hcompletes
    have hends : (Outcome.ofTake answer).goesOn = false := by
      rcases answer with fault | statement? <;> rfl
    rw [if_neg (by simp [hends])]
    exact State.stands_of_empty hheld (hmode.trans hcompletes.1.1.2)

theorem directive?_of_directiveIn? {bytes : List UInt8} {d : Delimiter}
    (h : sc.directiveIn? bytes = some d) : directive? bytes = some d := by
  rw [directiveIn?] at h
  split at h
  · exact h
  · cases h

/-- A directive stands where no text is held. -/
theorem stands_obey {run bytes : List UInt8} {d : Delimiter} (h : sc.state.Stands run)
    (hd : sc.directiveIn? bytes = some d) (c : Chunk) (length : Nat) :
    sc.state.pending = [] ∧ ((sc.consume c).obey d length).state.Stands [] := by
  obtain ⟨text, htext⟩ := h.holds
  unfold directiveIn? at hd
  split at hd
  · next hstart =>
    simp only [Bool.and_eq_true, Bool.not_eq_true', beq_iff_eq] at hstart
    obtain ⟨⟨-, hmode⟩, hbegun⟩ := hstart
    have hnil := htext.pending_eq_nil hbegun
    refine ⟨hnil, State.stands_of_empty ⟨?_, ?_, ?_⟩ hmode⟩
    · simp [Scanner.obey, consume, hnil]
    · simp [Scanner.obey, consume, htext.size]
    · simp [Scanner.obey, consume, hnil, hbegun]
  · cases hd

theorem Tracks.obey (h : Tracks log sc) {c : Chunk} {d : Delimiter} (hloads : sc.Loads c)
    (hd : sc.directiveIn? c.bytes = some d) :
    Tracks (log ++ [.directive c.bytes d]) ((sc.consume c).obey d c.bytes.length) := by
  constructor
  · intro _
    rw [codeRun_concat]
    exact (stands_obey (h.stands hloads.isOpen) hd c _).2
  · exact notBlank_of_directive? (directive?_of_directiveIn? hd)

theorem Move.tracks (h : Move sc entries sc') (hsc : Tracks log sc) : Tracks (log ++ entries) sc' := by
  cases h with
  | read hopen hchunk hread =>
    have hframe := (State.read_frame hread).2
    exact ⟨hsc.read hopen hread, by simpa [hframe] using hsc.notBlank⟩
  | load hloads hd =>
    rw [List.append_nil]
    exact ⟨hsc.stands, hsc.notBlank⟩
  | obey hloads hd => exact hsc.obey hloads hd

theorem Moves.tracks (h : Moves sc log sc') (hsc : Tracks [] sc) : Tracks log sc' := by
  induction h with
  | refl => exact hsc
  | tail _ hmove ih => exact hmove.tracks ih

/-- A call that leaves a scanner open ends with the last byte of a statement. -/
theorem exists_of_calls {answer : Answer} (h : Calls sc sc' answer) (hopen : sc'.finished = false) :
    ∃ log last r statement, Moves sc log last ∧ Move last [.reading r] sc' ∧
      r.outcome = .ended (some statement) ∧ answer = .ok (some statement) := by
  cases h with
  | yields _ hmoves hmove houtcome => exact ⟨_, _, _, _, hmoves, hmove, houtcome, rfl⟩
  | fails _ _ hmove houtcome =>
    cases hmove with
    | read _ _ hread =>
      dsimp only at houtcome hopen
      rw [houtcome] at hopen
      cases hopen
  | ends => cases hopen
  | breaksOff => cases hopen

theorem finished_of_next (hopen : sc.next.1.finished = false) : sc.finished = false := by
  rw [Bool.eq_false_iff]
  intro hfinished
  rw [next_of_finished hfinished, hfinished] at hopen
  cases hopen

/-- All that came before an open scanner is moves. -/
theorem exists_moves_afterCalls {n : Nat} (hopen : (sc.afterCalls n).finished = false) :
    ∃ log, Moves sc log (sc.afterCalls n) := by
  induction n with
  | zero => exact ⟨[], .refl⟩
  | succ n ih =>
    rw [afterCalls_succ] at hopen ⊢
    have hopen' := finished_of_next hopen
    obtain ⟨log, hmoves⟩ := ih hopen'
    obtain ⟨log', last, r, statement, hmoves', hmove, -⟩ :=
      exists_of_calls (calls_of_open hopen') hopen
    exact ⟨_, (hmoves.trans hmoves').tail hmove⟩

/-- How texts end for a scanner that started at this offset of a dump, in front of these bytes. -/
structure Delimited (sc : Scanner) (bytes : List UInt8) (offset : Nat) : Prop where
  /-- A log lists the bytes that were read. -/
  read : ∀ log sc', Moves sc log sc' → bytes = log.flatMap Entry.bytes ++ sc'.unread
  /-- The bytes just before the end of a statement spell the delimiter, in code. -/
  spelled : ∀ n statement, (sc.call n).answer = .ok (some statement) →
    (sc.afterCalls (n + 1)).finished = false →
    (∀ b ∈ (sc.call n).delimiter.bytes, isQuote b = false) →
    ∃ (front : List Entry) (window : List Reading),
      Moves sc (front ++ window.map .reading) (sc.afterCalls (n + 1)) ∧
      statement.endOffset = offset + ((front ++ window.map Entry.reading).flatMap Entry.bytes).length ∧
      window.map (·.byte) = (sc.call n).delimiter.bytes ∧ ∀ r ∈ window, r.InCode
  /-- Where bytes of code spell the delimiter, and no text ended among them, the text ends, unless it
  is refused. -/
  found : ∀ (front : List Entry) (window : List Reading) (last : Reading) (sc' : Scanner),
    Moves sc (front ++ (window ++ [last]).map .reading) sc' →
    (∀ r ∈ window ++ [last], r.InCode) → (∀ r ∈ window, r.outcome = .more) →
    (window ++ [last]).map (·.byte) = last.before.delimiter.bytes →
    (∃ statement?, last.outcome = .ended statement?) ∨
      (∃ limit position, last.outcome = .failed (.statementTooLarge limit position)) ∨
      ∃ position, last.outcome = .failed (.invalidEncoding position)

/-- The byte that ends a statement is the last of its delimiter. -/
theorem Tracks.spelled {r : Reading} {statement : Statement} (h : Tracks log sc)
    (hmove : Move sc [.reading r] sc') (hr : r.outcome = .ended (some statement))
    (hquote : ∀ b ∈ sc'.state.delimiter.bytes, isQuote b = false) :
    statement.endOffset = sc'.position ∧ ∃ (front : List Entry) (window : List Reading),
      log ++ [.reading r] = front ++ window.map .reading ∧
      window.map (·.byte) = sc'.state.delimiter.bytes ∧ ∀ r ∈ window, r.InCode := by
  cases hmove with
  | @read b chunk t outcome hopen hchunk hread =>
    have hstands := h.stands hopen
    have hdelimiter : t.delimiter = sc.state.delimiter := (State.read_frame hread).2
    cases State.comesTo_of_read hread with
    | refused => cases hr
    | more => cases hr
    | @taken _ answer _ hcompletes htake =>
      obtain rfl : answer = .ok (some statement) := by
        rcases answer with fault | statement?
        · cases hr
        · simpa [Outcome.ofTake] using hr
      rw [show _ = sc.state.delimiter from hdelimiter] at hquote ⊢
      obtain ⟨hmode, hmode', hsuffix⟩ :=
        hstands.suffix_of_completes hcompletes fun b hb => ⟨hquote b hb, h.notBlank b hb⟩
      obtain ⟨rfl, hend⟩ := State.take_statement hmode' htake
      obtain ⟨hrun, front, hfront⟩ := exists_codeRun log
      obtain ⟨x, hx⟩ := hsuffix
      set r : Reading := ⟨sc.state, b, .initial _ _, .ofTake (.ok (some statement))⟩
      have hall : (codeRun log ++ [r]).map (·.byte) = x ++ sc.state.delimiter.bytes := by
        rw [hx, List.map_append]
        rfl
      obtain ⟨earlier, window, hsplit, -, hwindow⟩ := List.map_eq_append_iff.mp hall
      refine ⟨hend, front ++ earlier.map .reading, window, ?_, hwindow, ?_⟩
      · rw [List.append_assoc, ← List.map_append, ← hsplit, List.map_append, ← List.append_assoc,
          ← hfront]
        rfl
      · intro r' hr'
        have hmem : r' ∈ codeRun log ++ [r] := by
          rw [hsplit]
          exact List.mem_append_right _ hr'
        rcases List.mem_append.mp hmem with hearlier | hlast
        · exact hrun r' hearlier
        · rw [List.mem_singleton.mp hlast]
          exact ⟨hmode, rfl⟩

/-- The last byte of a delimiter in code ends the text. -/
theorem Tracks.found {window : List Reading} {last : Reading} (h : Tracks log sc)
    (hmove : Move sc [.reading last] sc') (hcode : last.InCode)
    (hwindow : window <:+ codeRun log)
    (hbytes : (window ++ [last]).map (·.byte) = last.before.delimiter.bytes) :
    (∃ statement?, last.outcome = .ended statement?) ∨
      (∃ limit position, last.outcome = .failed (.statementTooLarge limit position)) ∨
      ∃ position, last.outcome = .failed (.invalidEncoding position) := by
  cases hmove with
  | @read b chunk t outcome hopen hchunk hread =>
    have hstands := h.stands hopen
    cases State.comesTo_of_read hread with
    | refused => exact .inr (.inl ⟨_, _, rfl⟩)
    | more _ hmore =>
      exfalso
      have hne : sc.state.delimiter.bytes ≠ [] := by
        rw [← show _ = sc.state.delimiter.bytes from hbytes]
        simp
      have hsuffix : sc.state.delimiter.bytes <:+ (codeRun log).map (·.byte) ++ [b] := by
        obtain ⟨run, hrun⟩ := hwindow
        rw [← show _ = sc.state.delimiter.bytes from hbytes, ← hrun, List.map_append, List.map_append,
          List.append_assoc]
        exact List.suffix_append _ _
      rw [hstands.completes_of_suffix hcode.1 hcode.2 hne h.notBlank hsuffix] at hmore
      cases hmore
    | @taken _ answer _ _ htake =>
      rcases answer with fault | statement?
      · have hfault := State.take_error (congrArg Prod.snd htake)
        exact .inr (.inr ⟨_, by rw [hfault]; rfl⟩)
      · exact .inl ⟨statement?, rfl⟩

/-- Texts end where the stream spells the delimiter in code, whichever delimiters its lines set. No
line sets one with a blank in it. Neither may the first one have any, since a blank of the text can
stand for a comment. -/
theorem delimited_ofSource (source : Source) (settings : Settings) (offset : Nat) {d : Delimiter}
    (hd : ∀ b ∈ d.bytes, isAsciiBlank b = false) :
    (ofSource source settings offset d).Delimited source.bytes offset := by
  have hstart := tracks_ofSource source settings offset hd
  have hbytes : (ofSource source settings offset d).unread = source.bytes := rfl
  have hposition : (ofSource source settings offset d).position = offset := rfl
  generalize ofSource source settings offset d = sc at *
  constructor
  case read =>
    intro log sc' hmoves
    rw [← hbytes]
    exact hmoves.reads.unread
  case spelled =>
    intro n statement hcall hopen hquote
    have hopen' : (sc.afterCalls n).next.1.finished = false := by rwa [afterCalls_succ] at hopen
    obtain ⟨log, hmoves⟩ := exists_moves_afterCalls (finished_of_next hopen')
    obtain ⟨log', last, r, statement', hmoves', hmove, hr, hanswer⟩ :=
      exists_of_calls (calls_of_open (finished_of_next hopen')) hopen'
    obtain rfl : statement' = statement := by
      rw [call, State.shown_answer, hanswer] at hcall
      simpa using hcall
    have hall := hmoves.trans hmoves'
    obtain ⟨hend, front, window, hlog, hwindow, hcode⟩ :=
      (hall.tracks hstart).spelled hmove hr hquote
    have hmoved := hall.tail hmove
    rw [hlog] at hmoved
    rw [afterCalls_succ]
    refine ⟨front, window, hmoved, ?_, hwindow, hcode⟩
    rw [hend, hmoved.reads.position, hposition]
  case found =>
    intro front window last sc' hmoves hcode hmore hspells
    rw [List.map_append, ← List.append_assoc] at hmoves
    obtain ⟨before, after, hbefore, hlast⟩ := hmoves.exists_of_concat
    have htracks := hbefore.tracks hstart
    have hwindow : window <:+ codeRun (front ++ window.map .reading) := by
      rw [codeRun_append]
      · exact List.suffix_append _ _
      · intro r hr
        exact ⟨hcode r (List.mem_append_left _ hr), by rw [hmore r hr]; rfl⟩
    exact htracks.found hlast (hcode last (by simp)) hwindow hspells

/-- The first text ends behind sixteen bytes, and the last two of them are the delimiter that the line
has set, read in code. -/
theorem delimited_of_slashes : (∀ b ∈ semicolon.bytes, isAsciiBlank b = false) ∧
    (ofSource ⟨slashes, none⟩).Delimited slashes 0 ∧
    ((ofSource ⟨slashes, none⟩).call 0).answer = .ok (some ⟨"a", 16, 16⟩) ∧
    ∃ (front : List Entry) (window : List Reading),
      Moves (ofSource ⟨slashes, none⟩) (front ++ window.map .reading)
        ((ofSource ⟨slashes, none⟩).afterCalls 1) ∧
      ((front ++ window.map Entry.reading).flatMap Entry.bytes).length = 16 ∧
      window.map (·.byte) = [0x2F, 0x2F] ∧ ∀ r ∈ window, r.InCode := by
  have hblank : ∀ b ∈ semicolon.bytes, isAsciiBlank b = false := by simp [isAsciiBlank]
  have hdelimited := delimited_ofSource ⟨slashes, none⟩ {} 0 hblank
  have hcall : ((ofSource ⟨slashes, none⟩).call 0).answer = .ok (some ⟨"a", 16, 16⟩) := by
    decide +kernel
  have hd : ((ofSource ⟨slashes, none⟩).call 0).delimiter.bytes = [0x2F, 0x2F] := by decide +kernel
  obtain ⟨front, window, hmoves, hend, hwindow, hcode⟩ :=
    hdelimited.spelled 0 _ hcall (by decide +kernel) (by simp [hd, isQuote])
  rw [hd] at hwindow
  exact ⟨hblank, hdelimited, hcall, front, window, hmoves,
    (Nat.zero_add _).symm.trans hend.symm, hwindow, hcode⟩

end Scanner

end SqlBackup
