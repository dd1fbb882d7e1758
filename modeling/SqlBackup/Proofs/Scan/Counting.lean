import SqlBackup.Proofs.Scan.Moves
import SqlBackup.Proofs.Scan.Offsets

/-!
# What a scanner counts

A scanner counts the bytes that it has read, and each statement tells where it ends and how many
bytes were read since the end of the one before. The main statement says that no byte is counted
twice or left out, call after call, so that a scanner of `n` bytes is through after `n + 1` calls at
the most.
-/
namespace SqlBackup

namespace Scan

/-- How an answer moves the start of the statement being read: a statement moves it to its end. -/
structure Accounts (start : Nat) (answer : Scanner.Answer) (start' : Nat) : Prop where
  lt : ∀ statement, answer = .ok (some statement) → start < start'
  endOffset : ∀ statement, answer = .ok (some statement) → statement.endOffset = start'
  consumed : ∀ statement, answer = .ok (some statement) → start' = start + statement.bytesConsumed
  kept : (∀ statement, answer ≠ .ok (some statement)) → start' = start

theorem accounts_kept {start : Nat} {answer : Scanner.Answer}
    (h : ∀ statement, answer ≠ .ok (some statement)) : Accounts start answer start := by
  constructor
  · exact fun statement hsome => absurd hsome (h statement)
  · exact fun statement hsome => absurd hsome (h statement)
  · exact fun statement hsome => absurd hsome (h statement)
  · exact fun _ => rfl

theorem Accounts.le {start start' : Nat} {answer : Scanner.Answer}
    (h : Accounts start answer start') : start ≤ start' := by
  by_cases hsome : ∃ statement, answer = .ok (some statement)
  · obtain ⟨statement, hstatement⟩ := hsome
    exact (h.lt statement hstatement).le
  · exact (h.kept (by simpa using hsome)).ge

/-- What a byte would answer to a call that ended with it. -/
def Outcome.answer : Outcome → Scanner.Answer
  | .more => .ok none
  | .ended statement? => .ok statement?
  | .failed fault => .error fault

theorem answer_of_quiet {outcome : Outcome} (h : outcome = .more ∨ outcome = .ended none) :
    outcome.answer = .ok none := by
  rcases h with rfl | rfl <;> rfl

namespace State

variable {limit : Nat} {s t : State} {b : UInt8}

theorem Forward.obey (hs : s.Forward) (d : Delimiter) (length : Nat) : (s.obey d length).Forward :=
  ⟨hs.start_le.trans (Nat.le_add_right _ _),
    fun hne => (hs.pending hne).trans_le (Nat.le_add_right _ _)⟩

theorem Forward.take {atBoundary : Bool} {answer : Scanner.Answer} (hs : s.Forward)
    (h : s.take atBoundary = (t, answer)) : t.Forward ∧ Accounts s.start answer t.start := by
  have hne : ∀ statement, answer = .ok (some statement) → s.start < s.position := by
    rintro statement rfl
    exact hs.pending (pending_ne_nil_of_take h)
  unfold State.take at h
  dsimp only at h
  split at h
  · obtain ⟨rfl, rfl⟩ := Prod.mk.inj h
    exact ⟨⟨hs.start_le, fun hne => (hne rfl).elim⟩, accounts_kept (by simp)⟩
  split at h
  · obtain ⟨rfl, rfl⟩ := Prod.mk.inj h
    exact ⟨⟨hs.start_le, fun hne => (hne rfl).elim⟩, accounts_kept (by simp)⟩
  · obtain ⟨rfl, rfl⟩ := Prod.mk.inj h
    have hlt := hne _ rfl
    refine ⟨⟨le_rfl, fun hne => (hne rfl).elim⟩, ?_⟩
    constructor
    · simpa using hlt
    · simp
    · simp only [Except.ok.injEq, Option.some.injEq, forall_eq']
      omega
    · simp

theorem Forward.moved (hs : s.Forward) (b : UInt8) : (s.moved b).Forward := by
  apply forward_of_lt
  rw [start_moved]
  exact Nat.lt_succ_of_le hs.start_le

theorem Forward.read {outcome : Outcome} (hs : s.Forward) (h : s.read limit b = (t, outcome)) :
    t.Forward ∧ Accounts s.start outcome.answer t.start := by
  have hmoved := hs.moved b
  rw [← start_moved s b]
  cases comesTo_of_read h with
  | refused => exact ⟨⟨hmoved.start_le, hmoved.pending⟩, accounts_kept (by simp [Outcome.answer])⟩
  | more => exact ⟨hmoved, accounts_kept (by simp [Outcome.answer])⟩
  | @taken _ answer _ _ htake =>
    have hanswer : (Outcome.ofTake answer).answer = answer := by
      rcases answer with fault | statement? <;> rfl
    rw [hanswer]
    exact hmoved.take htake

end State

end Scan

open Scan

namespace Scanner

variable {sc sc' : Scanner} {log : List Entry} {answer : Answer}

/-- Moves that yield no statement leave the start of the statement where it is. -/
theorem Moves.forward (h : Moves sc log sc') (hquiet : Quiet log) (hs : sc.state.Forward) :
    sc'.state.Forward ∧ sc'.state.start = sc.state.start := by
  induction h with
  | refl => exact ⟨hs, rfl⟩
  | tail _ hmove ih =>
    obtain ⟨hfront, hlast⟩ := hquiet.of_append
    obtain ⟨hs', hstart⟩ := ih hfront
    cases hmove with
    | read hopen hchunk hread =>
      obtain ⟨ht, haccounts⟩ := hs'.read hread
      rw [answer_of_quiet (hlast _ (List.mem_singleton_self _))] at haccounts
      exact ⟨ht, (haccounts.kept (by simp)).trans hstart⟩
    | load hloads hd => exact ⟨hs', hstart⟩
    | obey hloads hd => exact ⟨hs'.obey _ _, hstart⟩

/-- What is known of the counters of a scanner whose stream, of which this is the end, does not
fail. -/
structure Balanced (sc : Scanner) (high : Nat) : Prop where
  sound : sc.source.failure = none
  forward : sc.state.Forward
  balance : sc.position + sc.unread.length = high

theorem balanced_ofSource (bytes : List UInt8) (settings : Settings) (offset : Nat) (d : Delimiter) :
    (ofSource ⟨bytes, none⟩ settings offset d).Balanced (offset + bytes.length) :=
  ⟨rfl, State.forward_initial offset d, rfl⟩

theorem Reads.balanced {high : Nat} (h : Reads sc log sc') (hsc : sc.Balanced high)
    (hforward : sc'.state.Forward) : sc'.Balanced high := by
  refine ⟨h.failure.trans hsc.sound, hforward, ?_⟩
  have hbalance := hsc.balance
  rw [h.unread, List.length_append] at hbalance
  have hposition := h.position
  omega

/-- What a call does to the counters. -/
structure Counts (sc sc' : Scanner) (answer : Answer) (high : Nat) : Prop where
  balanced : sc'.Balanced high
  position_le : sc.position ≤ sc'.position
  accounts : Accounts sc.state.start answer sc'.state.start
  ended : sc'.finished = true → (∀ fault, answer ≠ .error fault) → sc'.unread = []

theorem Moves.balanced {high : Nat} (h : Moves sc log sc') (hquiet : Quiet log)
    (hsc : sc.Balanced high) :
    sc'.Balanced high ∧ sc'.state.start = sc.state.start := by
  obtain ⟨hforward, hstart⟩ := h.forward hquiet hsc.forward
  exact ⟨h.reads.balanced hsc hforward, hstart⟩

/-- The byte at which a call stops. -/
theorem Move.counts {high : Nat} {r : Reading} (h : Move sc [.reading r] sc')
    (hsc : sc.Balanced high) :
    sc'.Balanced high ∧ Accounts sc.state.start r.outcome.answer sc'.state.start ∧
      sc'.finished = r.outcome.isFailure := by
  have hreads := h.reads
  cases h with
  | read hopen hchunk hread =>
    obtain ⟨hforward, haccounts⟩ := hsc.forward.read hread
    exact ⟨hreads.balanced hsc hforward, haccounts, rfl⟩

theorem counts_of_calls {high : Nat} (h : Calls sc sc' answer) (hsc : sc.Balanced high) :
    Counts sc sc' answer high := by
  have hposition := h.position_le
  cases h with
  | yields hquiet hmoves hmove houtcome =>
    obtain ⟨hlast, hstart⟩ := hmoves.balanced hquiet hsc
    obtain ⟨hsc', haccounts, hopen⟩ := hmove.counts hlast
    rw [houtcome] at haccounts hopen
    rw [hstart] at haccounts
    exact ⟨hsc', hposition, haccounts, by simp [hopen, Outcome.isFailure]⟩
  | fails hquiet hmoves hmove houtcome =>
    obtain ⟨hlast, hstart⟩ := hmoves.balanced hquiet hsc
    obtain ⟨hsc', haccounts, -⟩ := hmove.counts hlast
    rw [houtcome, hstart] at haccounts
    exact ⟨hsc', hposition, haccounts, fun _ hno => absurd rfl (hno _)⟩
  | @ends log last hquiet hmoves hopen hunread hsound =>
    obtain ⟨hlast, hstart⟩ := hmoves.balanced hquiet hsc
    rcases htake : { last.state with mode := .code }.take false with ⟨t, reply⟩
    have hforward : State.Forward { last.state with mode := .code } :=
      ⟨hlast.forward.start_le, hlast.forward.pending⟩
    obtain ⟨ht, haccounts⟩ := hforward.take htake
    have hsame := (State.take_frame htake).2
    simp only [unread, List.append_eq_nil_iff] at hunread
    simp only [finish, htake] at hposition ⊢
    refine ⟨⟨hsound, ht, ?_⟩, hposition, ?_, ?_⟩
    · rw [← hlast.balance, position, hsame]
      simp [unread, hunread, position]
    · rwa [← hstart]
    · simp [unread, hunread]
  | breaksOff hquiet hmoves hopen hchunk hcut hfailure =>
    have hlast := (hmoves.balanced hquiet hsc).1
    rw [hlast.sound] at hfailure
    cases hfailure

/-- Every call of a scanner that is not through. -/
theorem counts_next {high : Nat} (h : sc.next = (sc', answer)) (hopen : sc.finished = false)
    (hsc : sc.Balanced high) : Counts sc sc' answer high :=
  counts_of_calls (calls_next h hopen) hsc

/-! ### Call after call -/

theorem afterCalls_succ (sc : Scanner) (n : Nat) :
    sc.afterCalls (n + 1) = (sc.afterCalls n).next.1 := by
  induction n generalizing sc with
  | zero => rfl
  | succ n ih => exact ih sc.next.1

theorem call_position (sc : Scanner) (n : Nat) :
    (sc.call n).position = (sc.afterCalls (n + 1)).position := by
  rw [afterCalls_succ]
  rfl

/-- What one call more does. -/
structure CallCounts (sc : Scanner) (high n : Nat) : Prop where
  balanced : (sc.afterCalls (n + 1)).Balanced high
  position_le : (sc.afterCalls n).position ≤ (sc.afterCalls (n + 1)).position
  accounts : Accounts (sc.afterCalls n).state.start (sc.call n).answer
    (sc.afterCalls (n + 1)).state.start

theorem counts_call {high n : Nat} (hsc : (sc.afterCalls n).Balanced high) :
    sc.CallCounts high n := by
  have hanswer : (sc.call n).answer = (sc.afterCalls n).next.2 := rfl
  by_cases hfinished : (sc.afterCalls n).finished = true
  · have hnext := next_of_finished hfinished
    have hstays : sc.afterCalls (n + 1) = sc.afterCalls n := by rw [afterCalls_succ, hnext]
    constructor
    · rwa [hstays]
    · rw [hstays]
    · rw [hstays, hanswer, hnext]
      exact accounts_kept (by simp)
  · rw [Bool.not_eq_true] at hfinished
    have hcounts := counts_next rfl hfinished hsc
    constructor
    · rw [afterCalls_succ]
      exact hcounts.balanced
    · rw [afterCalls_succ]
      exact hcounts.position_le
    · rw [afterCalls_succ]
      exact hcounts.accounts

theorem balanced_afterCalls {high : Nat} (hsc : sc.Balanced high) (n : Nat) :
    (sc.afterCalls n).Balanced high := by
  induction n with
  | zero => exact hsc
  | succ n ih => exact (counts_call ih).balanced

theorem position_afterCalls_mono {high i j : Nat} (hsc : sc.Balanced high) (hij : i ≤ j) :
    (sc.afterCalls i).position ≤ (sc.afterCalls j).position := by
  induction hij with
  | refl => exact le_rfl
  | step _ ih => exact ih.trans (counts_call (balanced_afterCalls hsc _)).position_le

theorem start_afterCalls_mono {high i j : Nat} (hsc : sc.Balanced high) (hij : i ≤ j) :
    (sc.afterCalls i).state.start ≤ (sc.afterCalls j).state.start := by
  induction hij with
  | refl => exact le_rfl
  | step _ ih => exact ih.trans (counts_call (balanced_afterCalls hsc _)).accounts.le

theorem position_afterCalls_le {high : Nat} (hsc : sc.Balanced high) (n : Nat) :
    (sc.afterCalls n).position ≤ high := by
  have hbalance := (balanced_afterCalls hsc n).balance
  omega

/-- Each statement moves the start of the next one by a byte at least. -/
theorem start_add_le {high n : Nat} (hsc : sc.Balanced high)
    (hall : ∀ i < n, ∃ statement, (sc.call i).answer = .ok (some statement)) :
    sc.state.start + n ≤ (sc.afterCalls n).state.start := by
  induction n with
  | zero => exact le_rfl
  | succ n ih =>
    obtain ⟨statement, hstatement⟩ := hall n (Nat.lt_succ_self n)
    have hlt := (counts_call (balanced_afterCalls hsc n)).accounts.lt statement hstatement
    have hfront := ih fun i hi => hall i (Nat.lt_succ_of_lt hi)
    omega

/-- There are no more statements than bytes. -/
theorem exists_call_not_statement {high : Nat} (hsc : sc.Balanced high) :
    ∃ k ≤ high - sc.state.start, ∀ statement, (sc.call k).answer ≠ .ok (some statement) := by
  by_contra hall
  simp only [not_exists, not_and, not_forall, not_not] at hall
  have hmany := start_add_le hsc (n := high - sc.state.start + 1) fun i hi =>
    hall i (Nat.le_of_lt_succ hi)
  have hstart := (balanced_afterCalls hsc (high - sc.state.start + 1)).forward.start_le
  have hposition := position_afterCalls_le hsc (high - sc.state.start + 1)
  simp only [position] at hposition
  omega

theorem finished_afterCalls {n m : Nat} (h : (sc.afterCalls n).finished = true) (hnm : n ≤ m) :
    (sc.afterCalls m).finished = true := by
  induction hnm with
  | refl => exact h
  | step _ ih => rwa [afterCalls_succ, next_of_finished ih]

theorem call_of_afterCalls_finished {n : Nat} (h : (sc.afterCalls n).finished = true) :
    (sc.call n).answer = .ok none := by
  rw [call, next_of_finished h]
  rfl

/-- A call that yields no statement is the last that does anything. -/
theorem finished_of_call {n : Nat} (h : ∀ statement, (sc.call n).answer ≠ .ok (some statement)) :
    (sc.afterCalls (n + 1)).finished = true := by
  rw [afterCalls_succ]
  exact finished_next rfl h

/-- A scanner that is through without a failure has read all of its stream. -/
theorem unread_of_finished {high n : Nat} (hsc : sc.Balanced high) (hopen : sc.finished = false)
    (hfinished : (sc.afterCalls n).finished = true)
    (hno : ∀ j < n, ∀ fault, (sc.call j).answer ≠ .error fault) :
    (sc.afterCalls n).unread = [] := by
  induction n with
  | zero =>
    rw [afterCalls, hopen] at hfinished
    cases hfinished
  | succ n ih =>
    by_cases hearlier : (sc.afterCalls n).finished = true
    · rw [afterCalls_succ, next_of_finished hearlier]
      exact ih hearlier fun j hj => hno j (Nat.lt_succ_of_lt hj)
    · rw [Bool.not_eq_true] at hearlier
      rw [afterCalls_succ] at hfinished ⊢
      exact (counts_next rfl hearlier (balanced_afterCalls hsc n)).ended hfinished
        (hno n (Nat.lt_succ_self n))

/-- How the calls of a scanner go whose stream has this many bytes and starts at this offset. -/
structure Accounted (sc : Scanner) (offset length : Nat) : Prop where
  /-- A call among the first `length + 1` yields no statement, and there is nothing behind it. -/
  stops : ∃ k ≤ length, (∀ i < k, ∃ statement, (sc.call i).answer = .ok (some statement)) ∧
    (∀ statement, (sc.call k).answer ≠ .ok (some statement)) ∧
    ∀ i, k < i → (sc.call i).answer = .ok none
  within : ∀ i statement, (sc.call i).answer = .ok (some statement) →
    offset < statement.endOffset ∧ statement.endOffset ≤ offset + length
  increasing : ∀ i j statement statement', i < j → (sc.call i).answer = .ok (some statement) →
    (sc.call j).answer = .ok (some statement') → statement.endOffset < statement'.endOffset
  consumed_first : ∀ statement, (sc.call 0).answer = .ok (some statement) →
    statement.endOffset = offset + statement.bytesConsumed
  consumed_next : ∀ i statement statement', (sc.call i).answer = .ok (some statement) →
    (sc.call (i + 1)).answer = .ok (some statement') →
    statement'.endOffset = statement.endOffset + statement'.bytesConsumed
  position_low : ∀ i, offset ≤ (sc.call i).position
  position_mono : ∀ i j, i ≤ j → (sc.call i).position ≤ (sc.call j).position
  position_high : ∀ i, (sc.call i).position ≤ offset + length
  endOffset_le : ∀ i j statement, i ≤ j → (sc.call i).answer = .ok (some statement) →
    statement.endOffset ≤ (sc.call j).position
  exhausted : ∀ i, (sc.call i).answer = .ok none →
    (∀ j < i, ∀ fault, (sc.call j).answer ≠ .error fault) →
    (sc.call i).position = offset + length

/-- No byte is counted twice or left out, and there are no more statements than bytes. -/
theorem accounted_ofSource (bytes : List UInt8) (settings : Settings) (offset : Nat)
    (d : Delimiter) : (ofSource ⟨bytes, none⟩ settings offset d).Accounted offset bytes.length := by
  set sc := ofSource ⟨bytes, none⟩ settings offset d with hsc
  have hbalanced : sc.Balanced (offset + bytes.length) := balanced_ofSource bytes settings offset d
  have hopen : sc.finished = false := rfl
  have hstart : sc.state.start = offset := rfl
  have haccounts (n : Nat) := (counts_call (balanced_afterCalls hbalanced n)).accounts
  have hposition (n : Nat) : (sc.afterCalls n).state.start ≤ (sc.afterCalls n).position :=
    (balanced_afterCalls hbalanced n).forward.start_le
  constructor
  case stops =>
    have hexists := exists_call_not_statement hbalanced
    rw [hstart, Nat.add_sub_cancel_left] at hexists
    obtain ⟨k, hk, hno⟩ := hexists
    classical
    have hfind : ∃ k, ∀ statement, (sc.call k).answer ≠ .ok (some statement) := ⟨k, hno⟩
    refine ⟨Nat.find hfind, (Nat.find_min' hfind hno).trans hk, ?_, Nat.find_spec hfind, ?_⟩
    · intro i hi
      simpa using Nat.find_min hfind hi
    · intro i hi
      exact call_of_afterCalls_finished
        (finished_afterCalls (finished_of_call (Nat.find_spec hfind)) hi)
  case within =>
    intro i statement hi
    have hlow := start_afterCalls_mono hbalanced (Nat.zero_le i)
    have hlt := (haccounts i).lt statement hi
    have hend := (haccounts i).endOffset statement hi
    have hhigh := position_afterCalls_le hbalanced (i + 1)
    have hle := hposition (i + 1)
    simp only [afterCalls, hstart] at hlow
    omega
  case increasing =>
    intro i j statement statement' hij hi hj
    rw [(haccounts i).endOffset statement hi, (haccounts j).endOffset statement' hj]
    exact (start_afterCalls_mono hbalanced hij).trans_lt ((haccounts j).lt statement' hj)
  case consumed_first =>
    intro statement hfirst
    rw [(haccounts 0).endOffset statement hfirst, (haccounts 0).consumed statement hfirst]
    rfl
  case consumed_next =>
    intro i statement statement' hi hnext
    rw [(haccounts i).endOffset statement hi, (haccounts (i + 1)).endOffset statement' hnext]
    exact (haccounts (i + 1)).consumed statement' hnext
  case position_low =>
    intro i
    rw [call_position]
    exact position_afterCalls_mono hbalanced (Nat.zero_le (i + 1))
  case position_mono =>
    intro i j hij
    rw [call_position, call_position]
    exact position_afterCalls_mono hbalanced (Nat.succ_le_succ hij)
  case position_high =>
    intro i
    rw [call_position]
    exact position_afterCalls_le hbalanced (i + 1)
  case endOffset_le =>
    intro i j statement hij hi
    rw [call_position, (haccounts i).endOffset statement hi]
    exact (hposition (i + 1)).trans (position_afterCalls_mono hbalanced (Nat.succ_le_succ hij))
  case exhausted =>
    intro i hi hno
    have hfinished : (sc.afterCalls (i + 1)).finished = true := finished_of_call (by simp [hi])
    have hunread := unread_of_finished hbalanced hopen hfinished fun j hj fault hfault => by
      rcases Nat.lt_succ_iff_lt_or_eq.mp hj with hlt | rfl
      · exact hno j hlt fault hfault
      · simp [hi] at hfault
    have hbalance := (balanced_afterCalls hbalanced (i + 1)).balance
    rw [hunread] at hbalance
    rw [call_position]
    exact hbalance

end Scanner

end SqlBackup
