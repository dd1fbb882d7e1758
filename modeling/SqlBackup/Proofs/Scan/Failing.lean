import SqlBackup.Proofs.Scan.Transcript

/-!
# Streams that break off

A chunk is scanned only when it is complete. What was read of a line before its stream failed
belongs to no statement, so a scanner of a stream that fails yields what it yields however the
stream could have gone on, and then stops with the failure.
-/
namespace SqlBackup

namespace Scan

/-- The statement that a call yielded. -/
def Result.statement? (r : Result) : Option Statement :=
  match r.answer with
  | .ok answer => answer
  | .error _ => none

/-- What a call failed with. -/
def Result.fault? (r : Result) : Option Fault :=
  match r.answer with
  | .ok _ => none
  | .error fault => some fault

@[simp] theorem State.shown_answer (s : State) (answer : Scanner.Answer) :
    (s.shown answer).answer = answer := rfl

/-- Nothing behind a complete chunk was looked at. -/
theorem Chunk.cut_append_of_complete {n : Nat} {bytes : List UInt8}
    (h : (Chunk.cut n bytes).complete = true) (more : List UInt8) :
    Chunk.cut n (bytes ++ more) =
      ⟨(Chunk.cut n bytes).bytes, (Chunk.cut n bytes).rest ++ more, true⟩ := by
  induction n generalizing bytes with
  | zero => rfl
  | succ n ih =>
    cases bytes with
    | nil => cases h
    | cons b bytes =>
      rw [List.cons_append]
      by_cases hfeed : (b == 0x0A) = true
      · simp only [Chunk.cut, hfeed, if_true]
      · simp only [Chunk.cut, hfeed] at h ⊢
        rw [ih h]
        rfl

theorem Chunk.bytes_ne_nil_of_complete {n : Nat} {bytes : List UInt8}
    (h : (Chunk.cut (n + 1) bytes).complete = true) : (Chunk.cut (n + 1) bytes).bytes ≠ [] := by
  cases bytes with
  | nil => cases h
  | cons b bytes =>
    unfold Chunk.cut
    split
    · exact List.cons_ne_nil _ _
    · exact List.cons_ne_nil _ _

end Scan

namespace Scanner

open Scan

variable {sc sc' : Scanner} {answer : Answer} {failure : StreamFault}

/-! ### Call after call -/

/-- The scanner behind this many calls. -/
def afterCalls (sc : Scanner) : Nat → Scanner
  | 0 => sc
  | n + 1 => sc.next.1.afterCalls n

/-- What a call shows, counted from 0. -/
def call (sc : Scanner) (n : Nat) : Result :=
  (sc.afterCalls n).next.1.state.shown (sc.afterCalls n).next.2

theorem finished_refill (h : sc.refill = (sc', answer))
    (hlast : ∀ statement, answer ≠ .ok (some statement)) : sc'.finished = true := by
  fun_induction refill sc with
  | case1 sc c failure hfailure =>
    obtain ⟨rfl, rfl⟩ := Prod.mk.inj h
    rfl
  | case2 sc c hempty =>
    obtain ⟨rfl, rfl⟩ := Prod.mk.inj h
    rfl
  | case3 sc c hne shorter d hd _ ih => exact ih h
  | case4 sc c hne shorter hd state chunk statement scanned =>
    obtain ⟨rfl, rfl⟩ := Prod.mk.inj h
    exact absurd rfl (hlast statement)
  | case5 sc c hne shorter hd state chunk fault scanned =>
    obtain ⟨rfl, rfl⟩ := Prod.mk.inj h
    rfl
  | case6 sc c hne shorter hd state chunk scanned _ ih => exact ih h

/-- A call that yields no statement is the last that reads anything. -/
theorem finished_next (h : sc.next = (sc', answer))
    (hlast : ∀ statement, answer ≠ .ok (some statement)) : sc'.finished = true := by
  unfold next at h
  split at h
  · next hfinished =>
    obtain ⟨rfl, rfl⟩ := Prod.mk.inj h
    exact hfinished
  split at h
  · obtain ⟨rfl, rfl⟩ := Prod.mk.inj h
    exact absurd rfl (hlast _)
  · obtain ⟨rfl, rfl⟩ := Prod.mk.inj h
    rfl
  · exact finished_refill h hlast

theorem call_of_finished (h : sc.finished = true) (n : Nat) : (sc.call n).answer = .ok none := by
  have hstays : sc.afterCalls n = sc := by
    induction n with
    | zero => rfl
    | succ n ih => rw [afterCalls, next_of_finished h, ih]
  rw [call, hstays, next_of_finished h]
  rfl

theorem call_zero (h : sc.next = (sc', answer)) : sc.call 0 = sc'.state.shown answer := by
  rw [call, afterCalls, h]

theorem call_succ (h : sc.next = (sc', answer)) (n : Nat) : sc.call (n + 1) = sc'.call n := by
  rw [call, afterCalls, h, call]

/-- The results list the calls up to the first that yields no statement, and behind that one no call
shows anything. -/
theorem call_eq (sc : Scanner) (n : Nat) :
    (∀ r, sc.results[n]? = some r → sc.call n = r) ∧
      (sc.results.length ≤ n → (sc.call n).answer = .ok none) := by
  fun_induction results sc generalizing n with
  | case1 sc sc' statement called ih =>
    cases n with
    | zero =>
      refine ⟨fun r hr => ?_, fun h => absurd h (by simp)⟩
      rw [List.getElem?_cons_zero, Option.some_inj] at hr
      rw [← hr, call_zero called]
    | succ n =>
      rw [call_succ called, List.getElem?_cons_succ, List.length_cons, Nat.add_le_add_iff_right]
      exact ih n
  | case2 sc sc' answer hlast called =>
    have hfinished := finished_next called fun statement h => hlast statement h
    cases n with
    | zero =>
      refine ⟨fun r hr => ?_, fun h => absurd h (by simp)⟩
      rw [List.getElem?_cons_zero, Option.some_inj] at hr
      rw [← hr, call_zero called]
    | succ n =>
      refine ⟨fun r hr => absurd hr (by simp), fun _ => ?_⟩
      rw [call_succ called]
      exact call_of_finished hfinished n

theorem results_of_statement {statement : Statement} (h : sc.next = (sc', .ok (some statement))) :
    sc.results = sc'.state.shown (.ok (some statement)) :: sc'.results := by
  rw [results]
  split
  · next h' =>
    rw [h] at h'
    cases h'
    rfl
  · next hlast h' =>
    rw [h] at h'
    cases h'
    exact absurd rfl (hlast statement)

theorem results_of_last (h : sc.next = (sc', answer))
    (hlast : ∀ statement, answer ≠ .ok (some statement)) :
    sc.results = [sc'.state.shown answer] := by
  rw [results]
  split
  · next statement h' =>
    rw [h] at h'
    cases h'
    exact absurd rfl (hlast statement)
  · next h' =>
    rw [h] at h'
    cases h'
    rfl

/-- The statements that a scanner yields. -/
def statements (sc : Scanner) : List Statement := sc.results.filterMap Result.statement?

/-- What a scanner stops with, unless that is the end of its stream. -/
def fault? (sc : Scanner) : Option Fault := sc.results.findSome? Result.fault?

/-- Results that end behind statements stop with what the last of them tells. -/
theorem fault?_of_results {front : List Result} {last : Result}
    (h : sc.results = front ++ [last])
    (hfront : ∀ r ∈ front, ∃ statement, r.answer = .ok (some statement)) :
    sc.fault? = last.fault? := by
  have hnone : front.findSome? Result.fault? = none := by
    rw [List.findSome?_eq_none_iff]
    intro r hr
    obtain ⟨statement, hstatement⟩ := hfront r hr
    rw [Result.fault?, hstatement]
  rw [fault?, h, List.findSome?_append, hnone, List.findSome?_singleton]
  rfl

theorem statements_of_statement {statement : Statement}
    (h : sc.next = (sc', .ok (some statement))) :
    sc.statements = statement :: sc'.statements ∧ sc.fault? = sc'.fault? := by
  unfold statements fault?
  rw [results_of_statement h]
  exact ⟨rfl, rfl⟩

theorem statements_of_last (h : sc.next = (sc', answer))
    (hlast : ∀ statement, answer ≠ .ok (some statement)) :
    sc.statements = [] ∧ sc.fault? = (sc'.state.shown answer).fault? := by
  unfold statements fault?
  rw [results_of_last h hlast, List.findSome?_singleton]
  refine ⟨?_, rfl⟩
  rcases answer with fault | (_ | statement)
  · rfl
  · rfl
  · exact absurd rfl (hlast statement)

/-! ### How a stream could have gone on -/

/-- The same scanner of a stream that has more bytes behind its own. -/
def continued (sc : Scanner) (more : List UInt8) (ending : Option StreamFault) : Scanner :=
  { sc with source := ⟨sc.source.bytes ++ more, ending⟩ }

/-- What a scanner does with a complete chunk. -/
theorem refill_of_complete {c : Chunk}
    (hcut : Chunk.cut (sc.settings.room + 1) sc.source.bytes = c) (hcomplete : c.complete = true) :
    sc.refill =
      match sc.directiveIn? c.bytes with
      | some delimiter => ((sc.consume c).obey delimiter c.bytes.length).refill
      | none =>
          match sc.state.scan sc.settings.limit c.bytes with
          | (state, chunk, some (.ok statement)) =>
              ({ sc.consume c with state, chunk }, .ok (some statement))
          | (state, chunk, some (.error fault)) => { sc.consume c with state, chunk }.fail fault
          | (state, _, none) => { sc.consume c with state }.refill := by
  subst hcut
  rw [refill]
  simp only [hcomplete]
  exact dif_neg (Chunk.bytes_ne_nil_of_complete hcomplete)

/-- A scanner whose stream goes on does the same with a complete chunk. -/
theorem refill_continued_of_complete {c : Chunk}
    (hcut : Chunk.cut (sc.settings.room + 1) sc.source.bytes = c) (hcomplete : c.complete = true)
    (more : List UInt8) (ending : Option StreamFault) :
    (sc.continued more ending).refill =
      match sc.directiveIn? c.bytes with
      | some delimiter =>
          (((sc.consume c).obey delimiter c.bytes.length).continued more ending).refill
      | none =>
          match sc.state.scan sc.settings.limit c.bytes with
          | (state, chunk, some (.ok statement)) =>
              (Scanner.continued { sc.consume c with state, chunk } more ending,
                .ok (some statement))
          | (state, chunk, some (.error fault)) =>
              (Scanner.continued { sc.consume c with state, chunk } more ending).fail fault
          | (state, _, none) =>
              (Scanner.continued { sc.consume c with state } more ending).refill := by
  subst hcut
  have hmore := Chunk.cut_append_of_complete hcomplete more
  exact @refill_of_complete (sc.continued more ending) _ hmore rfl

/-- What a call answers does not depend on how the stream goes on, and the stream still fails behind
what the call has read. -/
structure Certain (sc sc' : Scanner) (answer : Answer) (failure : StreamFault) : Prop where
  settings : sc'.settings = sc.settings
  fails : sc'.source.failure = some failure
  noEnd : answer ≠ .ok none
  opened : ∀ statement, answer = .ok (some statement) → sc'.finished = sc.finished

/-- A scanner of a stream that fails goes on behind complete chunks only. -/
theorem complete_of_goesOn {complete : Bool} {fails : Option StreamFault}
    (hno : ∀ failure, complete = false → fails = some failure → False)
    (hfails : fails = some failure) : complete = true := by
  cases complete with
  | true => rfl
  | false => exact (hno failure rfl hfails).elim

theorem refill_continued (h : sc.refill = (sc', answer)) (hfails : sc.source.failure = some failure) :
    answer = .error (.ofStream sc.settings.name failure) ∨
      (Certain sc sc' answer failure ∧
        ∀ more ending, (sc.continued more ending).refill = (sc'.continued more ending, answer)) := by
  fun_induction refill sc with
  | case1 sc c failure' hfailure =>
    obtain ⟨rfl, rfl⟩ := Prod.mk.inj h
    rw [hfails, Option.some_inj] at hfailure
    rw [hfailure]
    exact .inl rfl
  | case2 sc c hempty hno =>
    exact absurd hempty (Chunk.bytes_ne_nil_of_complete (complete_of_goesOn hno hfails))
  | case3 sc c hne shorter d hd hno ih =>
    refine (ih h hfails).imp id fun hgoes => ?_
    obtain ⟨hcertain, hsame⟩ := hgoes
    refine ⟨⟨hcertain.settings, hcertain.fails, hcertain.noEnd, hcertain.opened⟩,
      fun more ending => ?_⟩
    rw [refill_continued_of_complete rfl (complete_of_goesOn hno hfails), hd]
    exact hsame more ending
  | case4 sc c hne shorter hd state chunk statement scanned hno =>
    obtain ⟨rfl, rfl⟩ := Prod.mk.inj h
    refine .inr ⟨⟨rfl, hfails, by simp, fun _ _ => rfl⟩, fun more ending => ?_⟩
    rw [refill_continued_of_complete rfl (complete_of_goesOn hno hfails), hd]
    simp only [scanned, c]
  | case5 sc c hne shorter hd state chunk fault scanned hno =>
    obtain ⟨rfl, rfl⟩ := Prod.mk.inj h
    refine .inr ⟨⟨rfl, hfails, by simp, by simp⟩, fun more ending => ?_⟩
    rw [refill_continued_of_complete rfl (complete_of_goesOn hno hfails), hd]
    simp only [scanned, c]
    rfl
  | case6 sc c hne shorter hd state chunk scanned hno ih =>
    refine (ih h hfails).imp id fun hgoes => ?_
    obtain ⟨hcertain, hsame⟩ := hgoes
    refine ⟨⟨hcertain.settings, hcertain.fails, hcertain.noEnd, hcertain.opened⟩,
      fun more ending => ?_⟩
    rw [refill_continued_of_complete rfl (complete_of_goesOn hno hfails), hd]
    simp only [scanned, c]
    exact hsame more ending

/-- A call either meets the failure or answers what it would however the stream went on. -/
theorem next_continued (h : sc.next = (sc', answer)) (hopen : sc.finished = false)
    (hfails : sc.source.failure = some failure) :
    answer = .error (.ofStream sc.settings.name failure) ∨
      (Certain sc sc' answer failure ∧
        ∀ more ending, (sc.continued more ending).next = (sc'.continued more ending, answer)) := by
  have hnext (more : List UInt8) (ending : Option StreamFault) :
      (sc.continued more ending).next =
        match sc.state.scan sc.settings.limit sc.chunk with
        | (state, chunk, some (.ok statement)) =>
            (Scanner.continued { sc with state, chunk } more ending, .ok (some statement))
        | (state, chunk, some (.error fault)) =>
            (Scanner.continued { sc with state, chunk } more ending).fail fault
        | (state, _, none) => (Scanner.continued { sc with state, chunk := [] } more ending).refill := by
    rw [next, if_neg (by simpa [continued] using hopen)]
    rfl
  rw [next, if_neg (by simp [hopen])] at h
  rcases hscan : sc.state.scan sc.settings.limit sc.chunk with ⟨t, chunk, _ | (fault | statement)⟩
  · simp only [hscan] at h hnext
    refine (refill_continued h hfails).imp id fun hgoes => ?_
    obtain ⟨hcertain, hsame⟩ := hgoes
    refine ⟨⟨hcertain.settings, hcertain.fails, hcertain.noEnd, hcertain.opened⟩,
      fun more ending => ?_⟩
    rw [hnext]
    exact hsame more ending
  · simp only [hscan] at h hnext
    obtain ⟨rfl, rfl⟩ := Prod.mk.inj h
    refine .inr ⟨⟨rfl, hfails, by simp, by simp⟩, fun more ending => ?_⟩
    rw [hnext]
    rfl
  · simp only [hscan] at h hnext
    obtain ⟨rfl, rfl⟩ := Prod.mk.inj h
    exact .inr ⟨⟨rfl, hfails, by simp, by simp⟩, hnext⟩

/-- What is known of the results on a stream that fails: some statements, and then a fault. -/
structure BreaksOff (sc : Scanner) (failure : StreamFault) (front : List Result) (last : Result)
    (fault : Fault) : Prop where
  results_eq : sc.results = front ++ [last]
  statements : ∀ r ∈ front, ∃ statement, r.answer = .ok (some statement)
  last_answer : last.answer = .error fault
  /-- The statements are the first however the stream could have gone on. -/
  certain : ∀ more ending, front <+: (sc.continued more ending).results
  /-- The fault is the failure of the stream, or one of the text before it. -/
  fault_eq : fault = .ofStream sc.settings.name failure ∨
    ∀ more ending, (sc.continued more ending).results = front ++ [last]

/-- A scanner of a stream that fails ends with a fault, and yields no statement that another end of
the stream could change. -/
theorem exists_breaksOff (hopen : sc.finished = false) (hfails : sc.source.failure = some failure) :
    ∃ front last fault, BreaksOff sc failure front last fault := by
  fun_induction results sc with
  | case1 sc sc' statement called ih =>
    rcases next_continued called hopen hfails with hfault | ⟨hcertain, hsame⟩
    · cases hfault
    have hopen' := (hcertain.opened statement rfl).trans hopen
    obtain ⟨front, last, fault, h⟩ := ih hopen' hcertain.fails
    have hresults (more : List UInt8) (ending : Option StreamFault) :=
      results_of_statement (hsame more ending)
    refine ⟨sc'.state.shown (.ok (some statement)) :: front, last, fault, ?_, ?_, h.last_answer,
      fun more ending => ?_, ?_⟩
    · rw [results_of_statement called, h.results_eq, List.cons_append]
    · exact List.forall_mem_cons.mpr ⟨⟨statement, rfl⟩, h.statements⟩
    · rw [hresults more ending]
      exact List.cons_prefix_cons.mpr ⟨rfl, h.certain more ending⟩
    · rw [← hcertain.settings]
      refine h.fault_eq.imp id fun hall more ending => ?_
      rw [hresults more ending, hall more ending]
      rfl
  | case2 sc sc' answer hlast called =>
    have hends : ∀ statement, answer ≠ .ok (some statement) := fun statement h => hlast statement h
    rcases next_continued called hopen hfails with rfl | ⟨hcertain, hsame⟩
    · exact ⟨[], _, _, results_of_last called hends, by simp, rfl, fun _ _ => List.nil_prefix,
        .inl rfl⟩
    · rcases answer with fault | (_ | statement)
      · exact ⟨[], _, fault, results_of_last called hends, by simp, rfl,
          fun _ _ => List.nil_prefix, .inr fun more ending => by
            rw [results_of_last (hsame more ending) (by simp)]
            rfl⟩
      · exact absurd rfl hcertain.noEnd
      · exact absurd rfl (hends statement)

namespace BreaksOff

variable {front : List Result} {last : Result} {fault : Fault}

theorem fault?_eq (h : BreaksOff sc failure front last fault) : sc.fault? = some fault := by
  rw [fault?_of_results h.results_eq h.statements, Result.fault?, h.last_answer]

theorem statements_eq (h : BreaksOff sc failure front last fault) :
    sc.statements = front.filterMap Result.statement? := by
  have hlast : last.statement? = none := by rw [Result.statement?, h.last_answer]
  rw [Scanner.statements, h.results_eq, List.filterMap_append, List.filterMap_cons_none hlast,
    List.filterMap_nil, List.append_nil]

end BreaksOff

/-- A stream that is scanned to its end does not fail. -/
theorem failure_eq_none (hopen : sc.finished = false) (h : sc.fault? = none) :
    sc.source.failure = none := by
  by_contra hne
  obtain ⟨failure, hfailure⟩ := Option.ne_none_iff_exists'.mp hne
  obtain ⟨front, last, fault, hbreaks⟩ := exists_breaksOff hopen hfailure
  rw [hbreaks.fault?_eq] at h
  cases h

end Scanner

end SqlBackup
