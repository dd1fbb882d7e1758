import SqlBackup.Proofs.Scan.Effect
import SqlBackup.Proofs.Scan.Failing
import SqlBackup.Proofs.Scan.Moves
import SqlBackup.Proofs.Scan.Resume

/-!
# The bound on the text of a statement

The limit is looked at in one place: where a byte of text is added. It keeps what is held within
bounds and has no other use, so a scanner with a larger limit does the same until the smaller one is
exceeded.
-/
namespace SqlBackup

namespace Scan.State

open Text

variable {limit limit' : Nat} {s t : State} {b : UInt8} {bytes : List UInt8}

/-! ### What is held -/

/-- The bytes that are held are counted, and there are no more of them than this. -/
structure Within (limit : Nat) (s : State) : Prop where
  size_eq : s.size = s.pending.length
  length_le : s.pending.length ≤ limit

theorem Within.mono (h : Within limit s) (hle : limit ≤ limit') : Within limit' s :=
  ⟨h.size_eq, h.length_le.trans hle⟩

theorem within_initial (limit offset : Nat) (d : Delimiter) : (initial offset d).Within limit :=
  ⟨rfl, Nat.zero_le limit⟩

theorem Within.on (h : Within limit s) (effect : Effect) :
    (effect.on s).Within (limit + 1) ∧
      (effect.exceeds limit s.size = false → (effect.on s).Within limit) := by
  obtain ⟨hsize, hlength⟩ := h
  cases effect with
  | none => exact ⟨⟨hsize, by simp [Effect.on]; omega⟩, fun _ => ⟨hsize, hlength⟩⟩
  | add b =>
    refine ⟨⟨by simp [Effect.on, hsize], by simp [Effect.on]; omega⟩, fun hfits => ?_⟩
    simp only [Effect.exceeds, decide_eq_false_iff_not, not_lt] at hfits
    exact ⟨by simp [Effect.on, hsize], by simp [Effect.on]; omega⟩
  | takeBack =>
    have hback : (Effect.takeBack.on s).Within limit :=
      ⟨by simp [Effect.on, unpush, hsize], by simp [Effect.on, unpush]; omega⟩
    exact ⟨hback.mono (Nat.le_succ limit), fun _ => hback⟩

/-- Behind any byte one byte more than the limit is held at most, and no more than the limit unless
the text is refused. -/
theorem Within.moved (h : Within limit s) (b : UInt8) :
    (s.moved b).Within (limit + 1) ∧
      ((s.effect b).1.exceeds limit s.size = false → (s.moved b).Within limit) := by
  obtain ⟨hone, hfit⟩ := h.on (s.effect b).1
  exact ⟨⟨hone.size_eq, hone.length_le⟩, fun hfits => ⟨(hfit hfits).size_eq, (hfit hfits).length_le⟩⟩

theorem Within.length_step_le (h : Within limit s) (b : UInt8) :
    (s.step limit b).1.pending.length ≤ limit + 1 := by
  obtain ⟨hone, -⟩ := h.moved b
  cases hexceeds : (s.effect b).1.exceeds limit s.size with
  | true =>
    rw [step_of_exceeds hexceeds]
    exact hone.length_le
  | false =>
    rw [step_of_fits hexceeds]
    exact hone.length_le

theorem within_take (limit : Nat) (s : State) (atBoundary : Bool) :
    (s.take atBoundary).1.Within limit := by
  rcases take_cases s atBoundary with h | h <;> rw [h] <;> exact ⟨rfl, Nat.zero_le limit⟩

theorem length_encode_trim_le (text : String) :
    (Utf8.encode (trim text)).length ≤ (Utf8.encode text).length := by
  have hsublist : (trimChars text.toList).Sublist text.toList := by
    have hend : ((trimStartChars text.toList).reverse.dropWhile isBlank).Sublist
        (trimStartChars text.toList).reverse := (List.dropWhile_suffix isBlank).sublist
    have hback := List.reverse_sublist.mpr hend
    rw [List.reverse_reverse] at hback
    exact hback.trans (List.dropWhile_suffix isBlank).sublist
  rw [Utf8.encode_eq, Utf8.encode_eq, toList_trim]
  exact (hsublist.flatMap _).length_le

/-- A statement is no longer than the text that it was made of. -/
theorem length_sql_le {atBoundary : Bool} {statement : Statement}
    (h : s.take atBoundary = (t, .ok (some statement))) :
    (Utf8.encode statement.sql).length ≤ s.pending.length := by
  unfold take at h
  dsimp only at h
  split at h
  · simp at h
  next text htext =>
  split at h
  · simp at h
  · simp only [Prod.mk.injEq, Except.ok.injEq, Option.some.injEq] at h
    rw [← h.2]
    have hraw := congrArg List.length (Utf8.decode?_eq_some_iff.mp htext)
    rw [List.length_reverse] at hraw
    refine (length_encode_trim_le text).trans (hraw.ge.trans ?_)
    split
    · simp
    · exact le_rfl

/-- What a byte leads to, with regard to the limit. -/
structure Confines (limit : Nat) (t : State) (outcome : Outcome) : Prop where
  within : t.Within (limit + 1)
  goesOn : outcome.isFailure = false → t.Within limit
  sql : ∀ statement, outcome = .ended (some statement) →
    (Utf8.encode statement.sql).length ≤ limit

theorem Within.read {outcome : Outcome} (h : Within limit s)
    (hread : s.read limit b = (t, outcome)) : Confines limit t outcome := by
  obtain ⟨hone, hfit⟩ := h.moved b
  cases comesTo_of_read hread with
  | refused => exact ⟨⟨hone.size_eq, hone.length_le⟩, by simp [Outcome.isFailure], by simp⟩
  | more hfits => exact ⟨hone, fun _ => hfit hfits, by simp⟩
  | @taken _ answer hfits _ htake =>
    have htaken := within_take limit (s.moved b) true
    rw [htake] at htaken
    refine ⟨htaken.mono (Nat.le_succ limit), fun _ => htaken, fun statement hstatement => ?_⟩
    rcases answer with fault | statement?
    · cases hstatement
    · obtain rfl : statement? = some statement := by simpa [Outcome.ofTake] using hstatement
      exact (length_sql_le htake).trans (hfit hfits).length_le

/-! ### A larger limit -/

theorem exceeds_mono (effect : Effect) (size : Nat) (hle : limit ≤ limit')
    (h : effect.exceeds limit size = false) : effect.exceeds limit' size = false := by
  cases effect with
  | none => rfl
  | add b =>
    simp only [Effect.exceeds, decide_eq_false_iff_not, not_lt] at h ⊢
    omega
  | takeBack => rfl

/-- A byte at which the text is not refused comes to the same under a larger limit. -/
theorem read_of_le {outcome : Outcome} (hle : limit ≤ limit') (h : s.read limit b = (t, outcome))
    (hfits : ∀ offset, outcome ≠ .failed (.statementTooLarge limit offset)) :
    s.read limit' b = (t, outcome) := by
  have hexceeds : (s.effect b).1.exceeds limit s.size = false := by
    cases comesTo_of_read h with
    | refused => exact absurd rfl (hfits _)
    | more hsmall => exact hsmall
    | taken hsmall => exact hsmall
  rw [← h, read, read, step_of_fits hexceeds, step_of_fits (exceeds_mono _ _ hle hexceeds)]
  cases s.completes b <;> rfl

end Scan.State

open Scan

namespace Scanner

variable {sc sc' : Scanner} {log : List Entry} {answer : Answer} {limit : Nat}

/-! ### What is held, call after call -/

/-- A scanner that goes on holds no more than its limit, and one that has failed one byte more. -/
structure Bounded (sc : Scanner) (limit : Nat) : Prop where
  limit_eq : sc.settings.limit = limit
  within : sc.state.Within (limit + 1)
  goesOn : sc.finished = false → sc.state.Within limit

theorem Move.bounded (h : Move sc log sc') (hsc : sc.Bounded limit) : sc'.Bounded limit := by
  obtain ⟨hlimit, hone, hfit⟩ := hsc
  cases h with
  | read hopen hchunk hread =>
    rw [hlimit] at hread
    have hkeeps := (hfit hopen).read hread
    exact ⟨hlimit, hkeeps.within, hkeeps.goesOn⟩
  | load hloads hd => exact ⟨hlimit, hone, hfit⟩
  | obey hloads hd =>
    exact ⟨hlimit, ⟨hone.size_eq, hone.length_le⟩,
      fun hopen => ⟨(hfit hopen).size_eq, (hfit hopen).length_le⟩⟩

theorem Moves.bounded (h : Moves sc log sc') (hsc : sc.Bounded limit) : sc'.Bounded limit := by
  induction h with
  | refl => exact hsc
  | tail _ hmove ih => exact hmove.bounded ih

/-- The byte at which a call stops. -/
theorem Move.length_sql_le {r : Reading} {statement : Statement} (h : Move sc [.reading r] sc')
    (hsc : sc.Bounded limit) (hr : r.outcome = .ended (some statement)) :
    (Text.Utf8.encode statement.sql).length ≤ limit := by
  cases h with
  | read hopen hchunk hread =>
    rw [hsc.limit_eq] at hread
    exact ((hsc.goesOn hopen).read hread).sql statement hr

/-- A call keeps a scanner within bounds, and so is what it yields. -/
theorem bounded_of_calls (h : Calls sc sc' answer) (hsc : sc.Bounded limit) :
    sc'.Bounded limit ∧ ∀ statement, answer = .ok (some statement) →
      (Text.Utf8.encode statement.sql).length ≤ limit := by
  cases h with
  | yields hquiet hmoves hmove houtcome =>
    have hlast := hmoves.bounded hsc
    refine ⟨hmove.bounded hlast, ?_⟩
    simpa using hmove.length_sql_le hlast houtcome
  | fails hquiet hmoves hmove houtcome =>
    exact ⟨hmove.bounded (hmoves.bounded hsc), by simp⟩
  | @ends log last hquiet hmoves hopen hunread hsound =>
    have hlast := hmoves.bounded hsc
    have htaken := State.within_take (limit + 1) { last.state with mode := .code } false
    rcases htake : { last.state with mode := .code }.take false with ⟨t, reply⟩
    rw [htake] at htaken
    simp only [finish, htake]
    refine ⟨⟨hlast.limit_eq, htaken, by simp⟩, ?_⟩
    rintro statement rfl
    exact (State.length_sql_le htake).trans (hlast.goesOn hopen).length_le
  | breaksOff hquiet hmoves hopen hchunk hcut hfailure =>
    have hlast := hmoves.bounded hsc
    exact ⟨⟨hlast.limit_eq, hlast.within, by simp⟩, by simp⟩

theorem bounded_next (hsc : sc.Bounded limit) :
    sc.next.1.Bounded limit ∧ ∀ statement, sc.next.2 = .ok (some statement) →
      (Text.Utf8.encode statement.sql).length ≤ limit := by
  by_cases hfinished : sc.finished = true
  · rw [next_of_finished hfinished]
    exact ⟨hsc, by simp⟩
  · exact bounded_of_calls (calls_next rfl (by simpa using hfinished)) hsc

theorem bounded_afterCalls (hsc : sc.Bounded limit) (n : Nat) : (sc.afterCalls n).Bounded limit := by
  induction n generalizing sc with
  | zero => exact hsc
  | succ n ih => exact ih (bounded_next hsc).1

theorem length_sql_le_of_mem (hsc : sc.Bounded limit) :
    ∀ statement ∈ sc.statements, (Text.Utf8.encode statement.sql).length ≤ limit := by
  fun_induction results sc with
  | case1 sc sc' statement called ih =>
    obtain ⟨hsc', hsql⟩ := bounded_next hsc
    rw [called] at hsc' hsql
    rw [(statements_of_statement called).1, List.forall_mem_cons]
    exact ⟨hsql statement rfl, ih hsc'⟩
  | case2 sc sc' answer hlast called =>
    rw [(statements_of_last called fun statement => hlast statement).1]
    simp

theorem bounded_ofSource (source : Source) (settings : Settings) (offset : Nat) (d : Delimiter) :
    (ofSource source settings offset d).Bounded (max 1 settings.limit) :=
  ⟨rfl, State.within_initial _ offset d, fun _ => State.within_initial _ offset d⟩

/-! ### A larger limit, call after call -/

/-- The same scanner with another limit. -/
def withLimit (sc : Scanner) (limit : Nat) : Scanner :=
  { sc with settings := { sc.settings with limit } }

theorem Move.withLimit (h : Move sc log sc') (hle : sc.settings.limit ≤ limit)
    (hfits : ∀ r, .reading r ∈ log →
      ∀ limit offset, r.outcome ≠ .failed (.statementTooLarge limit offset)) :
    Move (sc.withLimit limit) log (sc'.withLimit limit) := by
  cases h with
  | read hopen hchunk hread =>
    have hsame := State.read_of_le hle hread fun offset => hfits _ (List.mem_singleton_self _) _ offset
    exact @Move.read (sc.withLimit limit) _ _ _ _ hopen hchunk hsame
  | @load c hloads hd =>
    have hloads' : (sc.withLimit limit).Loads c :=
      ⟨hloads.isOpen, hloads.empty, hloads.cut, hloads.whole, hloads.nonempty⟩
    exact .load hloads' hd
  | @obey c d hloads hd =>
    have hloads' : (sc.withLimit limit).Loads c :=
      ⟨hloads.isOpen, hloads.empty, hloads.cut, hloads.whole, hloads.nonempty⟩
    exact .obey hloads' hd

/-- Moves at which nothing fails are made under a larger limit as well. -/
theorem Moves.withLimit (h : Moves sc log sc') (hquiet : Quiet log)
    (hle : sc.settings.limit ≤ limit) : Moves (sc.withLimit limit) log (sc'.withLimit limit) := by
  induction h with
  | refl => exact .refl
  | tail hmoves hmove ih =>
    obtain ⟨hfront, hlast⟩ := hquiet.of_append
    have hle' := (congrArg Settings.limit hmoves.reads.settings).trans_le hle
    refine (ih hfront).tail (hmove.withLimit hle' fun r hr limit offset hlarge => ?_)
    rcases hlast r hr with hmore | hended
    · rw [hmore] at hlarge
      cases hlarge
    · rw [hended] at hlarge
      cases hlarge

theorem settings_of_calls (h : Calls sc sc' answer) : sc'.settings = sc.settings := by
  cases h with
  | yields _ hmoves hmove _ => exact hmove.reads.settings.trans hmoves.reads.settings
  | fails _ hmoves hmove _ => exact hmove.reads.settings.trans hmoves.reads.settings
  | ends _ hmoves => exact hmoves.reads.settings
  | breaksOff _ hmoves => exact hmoves.reads.settings

theorem Calls.withLimit (h : Calls sc sc' answer) (hle : sc.settings.limit ≤ limit)
    (hfits : ∀ limit offset, answer ≠ .error (.statementTooLarge limit offset)) :
    Calls (sc.withLimit limit) (sc'.withLimit limit) answer := by
  cases h with
  | yields hquiet hmoves hmove houtcome =>
    have hle' := (congrArg Settings.limit hmoves.reads.settings).trans_le hle
    refine .yields hquiet (hmoves.withLimit hquiet hle) (hmove.withLimit hle' ?_) houtcome
    simp [houtcome]
  | fails hquiet hmoves hmove houtcome =>
    have hle' := (congrArg Settings.limit hmoves.reads.settings).trans_le hle
    refine .fails hquiet (hmoves.withLimit hquiet hle) (hmove.withLimit hle' ?_) houtcome
    simpa [houtcome] using hfits
  | @ends log last hquiet hmoves hopen hunread hsound =>
    have hends := Calls.ends hquiet (hmoves.withLimit hquiet hle) hopen hunread hsound
    have hfinish : (last.withLimit limit).finish = (last.finish.1.withLimit limit, last.finish.2) := by
      rcases htake : { last.state with mode := .code }.take false with ⟨t, reply⟩
      simp [finish, Scanner.withLimit, htake]
    rwa [hfinish] at hends
  | breaksOff hquiet hmoves hopen hempty hcut hfailure =>
    exact .breaksOff hquiet (hmoves.withLimit hquiet hle) hopen hempty hcut hfailure

/-- A call that refuses no text goes the same under a larger limit. -/
theorem next_withLimit (h : sc.next = (sc', answer)) (hle : sc.settings.limit ≤ limit)
    (hfits : ∀ limit offset, answer ≠ .error (.statementTooLarge limit offset)) :
    (sc.withLimit limit).next = (sc'.withLimit limit, answer) ∧ sc'.settings = sc.settings := by
  by_cases hfinished : sc.finished = true
  · rw [next_of_finished hfinished] at h
    obtain ⟨rfl, rfl⟩ := Prod.mk.inj h
    exact ⟨@next_of_finished (sc.withLimit limit) hfinished, rfl⟩
  · have hcalls := calls_next h (by simpa using hfinished)
    exact ⟨next_of_calls (hcalls.withLimit hle hfits), settings_of_calls hcalls⟩

/-- A larger limit yields the same statements and perhaps more, and all the same if no text is
refused. -/
theorem results_withLimit (hle : sc.settings.limit ≤ limit) :
    (Fits sc.results → (sc.withLimit limit).results = sc.results) ∧
      sc.statements <+: (sc.withLimit limit).statements := by
  fun_induction results sc with
  | case1 sc sc' statement called ih =>
    obtain ⟨hsame, hsettings⟩ := next_withLimit called hle (by simp)
    obtain ⟨hall, hfront⟩ := ih ((congrArg Settings.limit hsettings).trans_le hle)
    constructor
    · intro hfits
      rw [results_of_statement hsame, hall fun r hr => hfits r (List.mem_cons_of_mem _ hr)]
      rfl
    · rw [(statements_of_statement called).1, (statements_of_statement hsame).1]
      exact List.cons_prefix_cons.mpr ⟨rfl, hfront⟩
  | case2 sc sc' answer hlast called =>
    have hends : ∀ statement, answer ≠ .ok (some statement) := fun statement => hlast statement
    constructor
    · intro hfits
      obtain ⟨hsame, -⟩ := next_withLimit called hle (hfits _ (List.mem_singleton_self _))
      rw [results_of_last hsame hends]
      rfl
    · rw [(statements_of_last called hends).1]
      exact List.nil_prefix

/-! ### What the limit does -/

/-- A scanner in the course of a run: some calls are over, and the next one may be under way. -/
def Reaches (sc sc' : Scanner) : Prop := ∃ n log, Moves (sc.afterCalls n) log sc'

/-- The limit of the first scanner bounds what it holds and what it yields. Compared to the second,
which has a larger one, it has no other effect than that of refusing a text. -/
structure Limited (sc larger : Scanner) (limit : Nat) : Prop where
  pending : ∀ sc', sc.Reaches sc' → sc'.state.pending.length ≤ limit + 1
  /-- A byte more does not change that, before a text that it ends is taken out. -/
  step : ∀ sc', sc.Reaches sc' → sc'.finished = false →
    ∀ b, (sc'.state.step sc'.settings.limit b).1.pending.length ≤ limit + 1
  sql : ∀ statement ∈ sc.statements, (Text.Utf8.encode statement.sql).length ≤ limit
  same : Fits sc.results → larger.results = sc.results
  before : sc.statements <+: larger.statements

/-- The limit bounds the text that is held, and does nothing else. -/
theorem limited_ofSource (source : Source) (settings : Settings) (offset : Nat) (d : Delimiter)
    {limit limit' : Nat} (h : limit ≤ limit') :
    Limited (ofSource source { settings with limit } offset d)
      (ofSource source { settings with limit := limit' } offset d) (max 1 limit) := by
  have hbounded := bounded_ofSource source { settings with limit } offset d
  have hreached : ∀ sc', (ofSource source { settings with limit } offset d).Reaches sc' →
      sc'.Bounded (max 1 limit) := by
    rintro sc' ⟨n, log, hmoves⟩
    exact hmoves.bounded (bounded_afterCalls hbounded n)
  have hle : (ofSource source { settings with limit } offset d).settings.limit ≤ max 1 limit' :=
    max_le_max_left 1 h
  obtain ⟨hsame, hbefore⟩ := results_withLimit hle
  constructor
  case pending => exact fun sc' hsc' => (hreached sc' hsc').within.length_le
  case step =>
    intro sc' hsc' hopen b
    have hsc := hreached sc' hsc'
    rw [hsc.limit_eq]
    exact (hsc.goesOn hopen).length_step_le b
  case sql => exact length_sql_le_of_mem hbounded
  case same => exact hsame
  case before => exact hbefore

/-- Two limits for one dump, of which the first does not leave room for `a//`. -/
theorem limited_of_slashes : 2 ≤ 3 ∧
    Limited (ofSource ⟨slashes, none⟩ { limit := 2 }) (ofSource ⟨slashes, none⟩ { limit := 3 }) 2 :=
  ⟨by decide, limited_ofSource ⟨slashes, none⟩ {} 0 semicolon (by decide)⟩

end Scanner

end SqlBackup
