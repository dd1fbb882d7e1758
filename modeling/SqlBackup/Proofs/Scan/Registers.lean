import SqlBackup.Proofs.Scan.Boundaries
import SqlBackup.Proofs.Scan.Limits

/-!
# The registers of a scanner

The registers of a scanner repeat one another: the flag says whether text is held, the counter how
much of it, and the last byte that is held is to say whether a comment may open with the next one.
The main statement is that they agree after every byte, however the stream is divided into chunks,
and that nothing is left of a statement once it is returned. The text that a run of code leaves
behind carries this: outside code a dash or a slash never comes to stand at its end when the
scanner is back in code.
-/
namespace SqlBackup

namespace Scan

open Text

/-- The bytes that open a comment together with the byte behind them. -/
def opensComment (b : UInt8) : Bool := b == 0x2D || b == 0x2F

theorem notBlank_of_opensComment {b : UInt8} (h : opensComment b = true) :
    isAsciiBlank b = false := by
  simp only [opensComment, Bool.or_eq_true, beq_iff_eq] at h
  rcases h with rfl | rfl <;> decide

theorem notQuote_of_opensComment {b : UInt8} (h : opensComment b = true) : isQuote b = false := by
  simp only [opensComment, Bool.or_eq_true, beq_iff_eq] at h
  rcases h with rfl | rfl <;> decide

/-- The byte that was read last is this one, it was read in code, and no text ended there. -/
def EndsWith (log : List Entry) (b : UInt8) : Prop :=
  ∃ r, log.getLast? = some (.reading r) ∧ r.byte = b ∧ r.before.mode = .code ∧ r.outcome = .more

theorem endsWith_concat {log : List Entry} {r : Reading} {b : UInt8} :
    EndsWith (log ++ [.reading r]) b ↔
      r.byte = b ∧ r.before.mode = .code ∧ r.outcome = .more := by
  simp [EndsWith]

theorem not_endsWith_directive {log : List Entry} {chunk : List UInt8} {d : Delimiter} {b : UInt8} :
    ¬EndsWith (log ++ [.directive chunk d]) b := by
  simp [EndsWith]

namespace State

variable {limit : Nat} {s t : State} {b c : UInt8} {marks : List Mark} {run : List UInt8}

/-- Nothing is left of the text before. -/
structure Fresh (s : State) : Prop where
  pending : s.pending = []
  begun : s.begun = false
  mode : s.mode = .code
  start : s.start = s.position

theorem fresh_initial (offset : Nat) (d : Delimiter) : (initial offset d).Fresh :=
  ⟨rfl, rfl, rfl, rfl⟩

theorem fresh_take {atBoundary : Bool} {statement : Statement} (hmode : s.mode = .code)
    (h : s.take atBoundary = (t, .ok (some statement))) : t.Fresh := by
  rw [(take_statement hmode h).1]
  exact fresh_initial _ _

/-- The text that is held does not start with a blank. -/
theorem Holds.notBlank_first (h : s.Holds marks) (hb : s.pending.getLast? = some b) :
    isAsciiBlank b = false := by
  have hfirst : ((marks.map Mark.byte).dropWhile isAsciiBlank).head? = some b := by
    rw [← h.pending, List.head?_reverse, hb]
  have hnot := List.head?_dropWhile_not isAsciiBlank (marks.map Mark.byte)
  rw [hfirst] at hnot
  simpa using hnot

/-- A byte that is no blank stands at the end of the text just where it was added. -/
theorem Holds.head?_addition (h : s.Holds marks) (hb : isAsciiBlank b = false) :
    ((s.addition c).on s).pending.head? = some b ↔ c = b := by
  unfold State.addition
  split
  · next hblank =>
    rw [Bool.and_eq_true, Bool.not_eq_true'] at hblank
    rw [Effect.on, h.pending_eq_nil hblank.1]
    constructor
    · simp
    · rintro rfl
      simp [hblank.2] at hb
  · simp [Effect.on]

/-- On its way back to code a scanner adds the byte that closes a quoted stretch, or a blank. -/
theorem Stands.exists_addition (h : s.Stands run) (hmode : s.mode ≠ .code)
    (hmode' : (s.effect b).2 = .code) :
    ∃ c, (s.effect b).1 = s.addition c ∧ (isQuote c = true ∨ isAsciiBlank c = true) := by
  have heffect := effect.eq_def s b
  cases hs : s.mode with
  | code => exact absurd hs hmode
  | quoted quote =>
    have hquote := h.quote quote (.inl hs)
    simp only [hs] at heffect
    rw [heffect] at hmode' ⊢
    refine ⟨b, rfl, .inl ?_⟩
    dsimp only at hmode'
    split_ifs at hmode' with hescape hclose
    rw [beq_iff_eq] at hclose
    rwa [hclose]
  | escaped quote =>
    simp only [hs] at heffect
    simp [heffect] at hmode'
  | lineComment =>
    simp only [hs] at heffect
    split_ifs at heffect with hfeed
    · rw [beq_iff_eq] at hfeed
      exact ⟨b, by rw [heffect], .inr (by rw [hfeed]; decide)⟩
    · simp [heffect] at hmode'
  | blockComment star =>
    simp only [hs] at heffect
    split_ifs at heffect with hclose
    · exact ⟨0x20, by rw [heffect], .inr (by decide)⟩
    · simp [heffect] at hmode'

/-- Back in code, a byte that may open a comment stands at the end of the text just where it was
read last, in code. -/
theorem Stands.head?_moved_iff (h : s.Stands run) (hmode' : (s.moved b).mode = .code)
    (hc : opensComment c = true) : (s.moved b).pending.head? = some c ↔ b = c ∧ s.mode = .code := by
  obtain ⟨text, htext⟩ := h.holds
  have hblank := notBlank_of_opensComment hc
  have hpending : (s.moved b).pending = ((s.effect b).1.on s).pending := rfl
  replace hmode' : (s.effect b).2 = .code := hmode'
  rw [hpending]
  by_cases hmode : s.mode = .code
  · have heffect := effect.eq_def s b
    simp only [hmode] at heffect
    split_ifs at heffect
    · simp [heffect] at hmode'
    · simp [heffect] at hmode'
    · simp [heffect] at hmode'
    · simp [heffect] at hmode'
    · rw [heffect, htext.head?_addition hblank]
      simp [hmode]
  · obtain ⟨added, hadded, hends⟩ := h.exists_addition hmode hmode'
    rw [hadded, htext.head?_addition hblank]
    simp only [hmode, and_false, iff_false]
    rintro rfl
    rcases hends with hquote | hends
    · rw [notQuote_of_opensComment hc] at hquote
      cases hquote
    · rw [hblank] at hends
      cases hends

end State

end Scan

open Scan Text

namespace Scanner

/-! ### Streams in any chunks -/

/-- A run of a scanner over a stream that comes in chunks of any size. The current chunk is given as
a whole, with the number of its bytes that were read. -/
inductive Divided (sc : Scanner) : List Entry → List UInt8 → Nat → Scanner → Prop where
  | start : Divided sc [] sc.chunk 0 sc
  | read {log : List Entry} {chunk : List UInt8} {cursor : Nat} {mid : Scanner} {b : UInt8}
      {t : State} {outcome : Outcome} :
      Divided sc log chunk cursor mid → mid.finished = false → chunk[cursor]? = some b →
      mid.state.read mid.settings.limit b = (t, outcome) →
      Divided sc (log ++ [.reading ⟨mid.state, b, t, outcome⟩]) chunk (cursor + 1)
        { mid with state := t, chunk := chunk.drop (cursor + 1), finished := outcome.isFailure }
  | load {log : List Entry} {chunk : List UInt8} {cursor : Nat} {mid : Scanner} {c : Chunk} :
      Divided sc log chunk cursor mid → mid.finished = false → chunk.length ≤ cursor →
      mid.source.bytes = c.bytes ++ c.rest → c.bytes ≠ [] → mid.directiveIn? c.bytes = none →
      Divided sc log c.bytes 0 { mid.consume c with chunk := c.bytes }
  | obey {log : List Entry} {chunk : List UInt8} {cursor : Nat} {mid : Scanner} {c : Chunk}
      {d : Delimiter} :
      Divided sc log chunk cursor mid → mid.finished = false → chunk.length ≤ cursor →
      mid.source.bytes = c.bytes ++ c.rest → mid.directiveIn? c.bytes = some d →
      Divided sc (log ++ [.directive c.bytes d]) c.bytes c.bytes.length
        ((mid.consume c).obey d c.bytes.length)

variable {sc sc' : Scanner} {log : List Entry} {chunk : List UInt8} {cursor limit : Nat}

/-- The bytes of the current chunk behind the cursor are those that are left of it. -/
theorem Divided.left (h : Divided sc log chunk cursor sc') :
    cursor ≤ chunk.length ∧ sc'.chunk = chunk.drop cursor := by
  induction h with
  | start => simp
  | read _ _ hbyte _ _ =>
    obtain ⟨hlt, -⟩ := List.getElem?_eq_some_iff.mp hbyte
    exact ⟨hlt, rfl⟩
  | load => simp
  | obey _ _ hread _ _ ih =>
    refine ⟨le_rfl, ?_⟩
    rw [List.drop_length]
    exact ih.2.trans (List.drop_eq_nil_of_le hread)

/-- A log lists the bytes that were read. -/
theorem Divided.unread (h : Divided sc log chunk cursor sc') :
    sc.unread = log.flatMap Entry.bytes ++ sc'.unread := by
  induction h with
  | start => simp
  | @read log chunk cursor mid b t outcome hmid _ hbyte _ ih =>
    obtain ⟨hlt, hb⟩ := List.getElem?_eq_some_iff.mp hbyte
    have hcons : mid.chunk = b :: chunk.drop (cursor + 1) := by
      rw [hmid.left.2, List.drop_eq_getElem_cons hlt, hb]
    rw [ih]
    simp [Scanner.unread, hcons, Entry.bytes]
  | load hmid _ hread hbytes _ _ ih =>
    rw [ih]
    simp [Scanner.unread, hmid.left.2, List.drop_eq_nil_of_le hread, hbytes, consume]
  | obey hmid _ hread hbytes _ ih =>
    rw [ih]
    simp [Scanner.unread, hmid.left.2, List.drop_eq_nil_of_le hread, hbytes, consume, Scanner.obey,
      Entry.bytes]

/-- The chunks that a scanner cuts off are one such division. -/
theorem Moves.divided (h : Moves sc log sc') : ∃ chunk cursor, Divided sc log chunk cursor sc' := by
  induction h with
  | refl => exact ⟨_, _, .start⟩
  | @tail mid next log entries _ hmove ih =>
    obtain ⟨chunk, cursor, hmid⟩ := ih
    obtain ⟨hle, hleft⟩ := hmid.left
    cases hmove with
    | @read b rest t outcome hopen hchunk hread =>
      have hlt : cursor < chunk.length := by
        by_contra hthrough
        rw [hleft, List.drop_eq_nil_of_le (Nat.not_lt.mp hthrough)] at hchunk
        cases hchunk
      rw [hleft, List.drop_eq_getElem_cons hlt] at hchunk
      obtain ⟨hb, rfl⟩ := List.cons.inj hchunk
      exact ⟨_, _, hmid.read hopen (List.getElem?_eq_some_iff.mpr ⟨hlt, hb⟩) hread⟩
    | load hloads hd =>
      have hthrough : chunk.length ≤ cursor := by
        rw [← List.drop_eq_nil_iff, ← hleft, hloads.empty]
      rw [List.append_nil]
      exact ⟨_, _, hmid.load hloads.isOpen hthrough hloads.bytes_eq hloads.nonempty hd⟩
    | obey hloads hd =>
      have hthrough : chunk.length ≤ cursor := by
        rw [← List.drop_eq_nil_iff, ← hleft, hloads.empty]
      exact ⟨_, _, hmid.obey hloads.isOpen hthrough hloads.bytes_eq hd⟩

/-! ### What each byte preserves -/

/-- What is known of the text of a scanner with this log before it has failed. -/
structure Tidy (log : List Entry) (sc : Scanner) : Prop where
  stands : ∃ run, sc.state.Stands run
  within : sc.state.Within sc.settings.limit
  last : sc.state.mode = .code → ∀ b, opensComment b = true →
    (sc.state.pending.head? = some b ↔ EndsWith log b)

theorem tidy_ofSource (source : Source) (settings : Settings) (offset : Nat) (d : Delimiter) :
    Tidy [] (ofSource source settings offset d) :=
  ⟨⟨[], State.stands_of_empty (State.holds_initial offset d) rfl⟩, State.within_initial _ offset d,
    by simp [ofSource, State.initial, EndsWith]⟩

theorem Tidy.read {b : UInt8} {t : State} {outcome : Outcome} (h : Tidy log sc)
    (hread : sc.state.read sc.settings.limit b = (t, outcome))
    (hgoesOn : outcome.isFailure = false) (rest : List UInt8) :
    Tidy (log ++ [.reading ⟨sc.state, b, t, outcome⟩])
      { sc with state := t, chunk := rest, finished := outcome.isFailure } := by
  obtain ⟨run, hstands⟩ := h.stands
  have hwithin := (h.within.read hread).goesOn hgoesOn
  cases State.comesTo_of_read hread with
  | refused => cases hgoesOn
  | more =>
    refine ⟨⟨_, hstands.moved b⟩, hwithin, fun hmode c hc => ?_⟩
    rw [endsWith_concat, hstands.head?_moved_iff hmode hc]
    simp
  | @taken _ answer _ hcompletes htake =>
    have hheld := State.holds_take (sc.state.moved b) true
    have hmode := State.mode_take (sc.state.moved b) true
    rw [htake] at hheld hmode
    have hcode := (State.moved_of_completes hcompletes).2.1
    refine ⟨⟨[], State.stands_of_empty hheld (hmode.trans hcode)⟩, hwithin, fun _ c _ => ?_⟩
    -- the text has ended there, and none is held
    have hnil : t.pending = [] := by simpa using hheld.pending
    rw [endsWith_concat]
    rcases answer with fault | statement? <;> simp [hnil, Outcome.ofTake]

theorem Tidy.obey {d : Delimiter} (h : Tidy log sc) (c : Chunk)
    (hd : sc.directiveIn? c.bytes = some d) :
    Tidy (log ++ [.directive c.bytes d]) ((sc.consume c).obey d c.bytes.length) := by
  obtain ⟨run, hrun⟩ := h.stands
  obtain ⟨hnil, hstands⟩ := stands_obey hrun hd c c.bytes.length
  refine ⟨⟨[], hstands⟩, ⟨h.within.size_eq, h.within.length_le⟩, fun _ b _ => ?_⟩
  simp [Scanner.obey, consume, hnil, not_endsWith_directive]

theorem Divided.tidy (h : Divided sc log chunk cursor sc') (hsc : Tidy [] sc)
    (hopen : sc'.finished = false) : Tidy log sc' := by
  induction h with
  | start => exact hsc
  | read hmid hgoesOn _ hread ih => exact (ih hgoesOn).read hread hopen _
  | load hmid hgoesOn _ _ _ _ ih =>
    have htidy := ih hgoesOn
    exact ⟨htidy.stands, htidy.within, htidy.last⟩
  | obey hmid hgoesOn _ _ hd ih => exact (ih hgoesOn).obey _ hd

theorem Divided.forward (h : Divided sc log chunk cursor sc') (hsc : sc.state.Forward) :
    sc'.state.Forward := by
  induction h with
  | start => exact hsc
  | read _ _ _ hread ih => exact (ih.read hread).1
  | load _ _ _ _ _ _ ih => exact ih
  | obey _ _ _ _ _ ih => exact ih.obey _ _

theorem Divided.settings (h : Divided sc log chunk cursor sc') : sc'.settings = sc.settings := by
  induction h with
  | start => rfl
  | read _ _ _ _ ih => exact ih
  | load _ _ _ _ _ _ ih => exact ih
  | obey _ _ _ _ _ ih => exact ih

/-- Behind a statement nothing is held, up to the next byte. -/
theorem Divided.fresh {r : Reading} {statement : Statement}
    (h : Divided sc (log ++ [.reading r]) chunk cursor sc')
    (hr : r.outcome = .ended (some statement)) : sc'.state.Fresh := by
  generalize hall : log ++ [.reading r] = all at h
  induction h with
  | start => simp at hall
  | @read front chunk cursor mid b t outcome _ _ _ hread _ =>
    obtain ⟨-, hlast⟩ := List.append_inj' hall rfl
    obtain rfl : r = ⟨mid.state, b, t, outcome⟩ := by simpa using hlast
    dsimp only at hr
    rw [hr] at hread
    generalize hended : Outcome.ended (some statement) = ended at hread
    cases State.comesTo_of_read hread with
    | refused => cases hended
    | more => cases hended
    | @taken _ answer _ hcompletes htake =>
      obtain rfl : answer = .ok (some statement) := by
        rcases answer with fault | statement?
        · cases hended
        · simpa [Outcome.ofTake] using hended.symm
      exact State.fresh_take (State.moved_of_completes hcompletes).2.1 htake
  | load _ _ _ _ _ _ ih => exact ih hall
  | obey =>
    obtain ⟨-, hlast⟩ := List.append_inj' hall rfl
    simp at hlast

/-- The end of the stream ends a statement as well. -/
theorem fresh_finish {statement : Statement} (h : sc.finish.2 = .ok (some statement)) :
    sc.finish.1.state.Fresh := by
  rcases htake : { sc.state with mode := .code }.take false with ⟨t, answer⟩
  simp only [finish, htake] at h ⊢
  rw [h] at htake
  exact State.fresh_take rfl htake

theorem fresh_of_calls {answer : Answer} {statement : Statement} (h : Calls sc sc' answer)
    (hanswer : answer = .ok (some statement)) : sc'.state.Fresh := by
  cases h with
  | @yields log r last _ statement' hquiet hmoves hmove hr =>
    obtain ⟨chunk, cursor, hdivided⟩ := (hmoves.tail hmove).divided
    exact hdivided.fresh hr
  | fails => cases hanswer
  | ends => exact fresh_finish hanswer
  | breaksOff => cases hanswer

/-! ### What the registers say -/

/-- What the registers of a scanner with this log say of one another, in the middle of this chunk. -/
structure Registers (log : List Entry) (chunk : List UInt8) (cursor limit : Nat) (sc : Scanner) :
    Prop where
  begun : sc.state.begun = true ↔ sc.state.pending ≠ []
  size : sc.state.size = sc.state.pending.length
  /-- The text is held last byte first. -/
  first : ∀ b, sc.state.pending.getLast? = some b → isAsciiBlank b = false
  within : sc.state.pending.length ≤ limit
  start_le : sc.state.start ≤ sc.state.position
  cursor_le : cursor ≤ chunk.length
  left : sc.chunk = chunk.drop cursor
  last : sc.state.mode = .code → ∀ b, b = 0x2D ∨ b = 0x2F →
    (sc.state.pending.head? = some b ↔ EndsWith log b)

theorem Divided.registers (h : Divided sc log chunk cursor sc') (htidy : Tidy log sc')
    (hforward : sc'.state.Forward) (hlimit : sc'.settings.limit = limit) :
    Registers log chunk cursor limit sc' := by
  obtain ⟨run, hstands⟩ := htidy.stands
  obtain ⟨text, htext⟩ := hstands.holds
  constructor
  case begun =>
    rw [htext.begun]
    simp
  case size => exact htext.size
  case first => exact fun b hb => htext.notBlank_first hb
  case within => exact hlimit ▸ htidy.within.length_le
  case start_le => exact hforward.start_le
  case cursor_le => exact h.left.1
  case left => exact h.left.2
  case last => exact fun hmode b hb => htidy.last hmode b (by simpa [opensComment] using hb)

/-- The registers of a scanner in front of these bytes agree at every moment. -/
structure Coherent (sc : Scanner) (bytes : List UInt8) (limit : Nat) : Prop where
  /-- A log lists the bytes that were read, in whichever chunks they came. -/
  read : ∀ log chunk cursor sc', Divided sc log chunk cursor sc' →
    bytes = log.flatMap Entry.bytes ++ sc'.unread
  registers : ∀ log chunk cursor sc', Divided sc log chunk cursor sc' → sc'.finished = false →
    Registers log chunk cursor limit sc'
  /-- Whatever the chunks, nothing is left of a statement behind its last byte. -/
  yielded : ∀ log r chunk cursor sc' statement, Divided sc (log ++ [.reading r]) chunk cursor sc' →
    r.outcome = .ended (some statement) → sc'.state.Fresh
  /-- Nor is anything left of the statement that the end of the stream ends. -/
  ended : ∀ log chunk cursor sc' statement, Divided sc log chunk cursor sc' →
    sc'.finish.2 = .ok (some statement) → sc'.finish.1.state.Fresh
  /-- All that a scanner does call after call is a run over the chunks that it cuts off. -/
  reached : ∀ sc', sc.Reaches sc' → sc'.finished = false →
    ∃ log chunk cursor, Divided sc log chunk cursor sc'
  returned : ∀ n statement, (sc.call n).answer = .ok (some statement) →
    (sc.afterCalls (n + 1)).state.Fresh

theorem finished_mono_of_moves (h : Moves sc log sc') (hopen : sc'.finished = false) :
    sc.finished = false := by
  induction h with
  | refl => exact hopen
  | tail _ hmove ih =>
    cases hmove with
    | read hgoesOn => exact ih hgoesOn
    | load hloads => exact ih hloads.isOpen
    | obey hloads => exact ih hloads.isOpen

/-- The registers of a scanner agree after every byte, in whichever chunks the stream comes. -/
theorem coherent_ofSource (source : Source) (settings : Settings) (offset : Nat) (d : Delimiter) :
    (ofSource source settings offset d).Coherent source.bytes (max 1 settings.limit) := by
  have htidy := tidy_ofSource source settings offset d
  have hforward : (ofSource source settings offset d).state.Forward :=
    State.forward_initial offset d
  have hlimit : (ofSource source settings offset d).settings.limit = max 1 settings.limit := rfl
  have hbytes : (ofSource source settings offset d).unread = source.bytes := rfl
  generalize ofSource source settings offset d = sc at *
  constructor
  case read =>
    intro log chunk cursor sc' h
    rw [← hbytes]
    exact h.unread
  case registers =>
    intro log chunk cursor sc' h hopen
    exact h.registers (h.tidy htidy hopen) (h.forward hforward) (h.settings ▸ hlimit)
  case yielded => exact fun log r chunk cursor sc' statement h hr => h.fresh hr
  case ended => exact fun log chunk cursor sc' statement _ hanswer => fresh_finish hanswer
  case reached =>
    rintro sc' ⟨n, log, hmoves⟩ hopen
    obtain ⟨log', hbefore⟩ := exists_moves_afterCalls (finished_mono_of_moves hmoves hopen)
    obtain ⟨chunk, cursor, h⟩ := (hbefore.trans hmoves).divided
    exact ⟨_, chunk, cursor, h⟩
  case returned =>
    intro n statement hanswer
    have hopen : (sc.afterCalls n).finished = false := by
      rw [Bool.eq_false_iff]
      intro hfinished
      rw [call, State.shown_answer, next_of_finished hfinished] at hanswer
      cases hanswer
    rw [afterCalls_succ]
    exact fresh_of_calls (calls_of_open hopen) hanswer

end Scanner

end SqlBackup
