import Mathlib
import SqlBackup.Proofs.Pool.Invariants
import SqlBackup.Proofs.Pool.Schedule
import SqlBackup.Scripted.Host

/-!
# What a pool guarantees

As long as a pool is not over there is a turn to make, and no order of turns goes on for ever: each
turn brings one job closer to its end and leaves the others where they are.

However the jobs of a pool take turns, they are started in order, never more than the pool is wide
for, and none is started once a failed job has given its permit back. When the pool is over each job
has an outcome: what it came to by itself, or that it was skipped, and then another one failed.
-/
namespace SqlBackup

open Relation (CutExpand)

/-- A job goes on to what is left of it when its request is answered. -/
def Job.Follows {α : Type} (rest job : Job α) : Prop :=
  ∃ request next answer, job = .ask request next ∧ rest = .resume next answer

theorem Job.wellFounded_follows {α : Type} : WellFounded (Job.Follows (α := α)) := by
  have hpanic (text : String) : Acc Job.Follows (Job.panic text : Job α) :=
    ⟨_, fun _ ⟨_, _, _, h, _⟩ => (nomatch h)⟩
  refine ⟨fun job => ?_⟩
  induction job with
  | done a => exact ⟨_, fun _ ⟨_, _, _, h, _⟩ => (nomatch h)⟩
  | panic text => exact hpanic text
  | ask request next ih =>
    refine ⟨_, fun rest ⟨request', next', answer, hjob, hrest⟩ => ?_⟩
    cases hjob
    subst hrest
    cases answer with
    | error text => exact hpanic text
    | ok reply => exact ih reply

namespace Pool

variable {σ ε α : Type} {host : Host σ} {jobs : List (Job (Except ε α))} {width : Nat} {s : σ}
  {moves : List (Move ε α)} {move : Move ε α} {t t' : Turns σ ε α}

/-- How far a job is from its end: the stages that it has before it, and what is left of it. -/
abbrev Stage (ε α : Type) := Nat × Job (Except ε α)

/-- One stage is closer to the end than another. -/
def Stage.Below : Stage ε α → Stage ε α → Prop := Prod.Lex (· < ·) Job.Follows

theorem Stage.wellFounded_below : WellFounded (Stage.Below (ε := ε) (α := α)) :=
  WellFounded.prod_lex wellFounded_lt Job.wellFounded_follows

theorem Stage.below_of_lt {m n : Nat} {job job' : Job (Except ε α)} (h : m < n) :
    Stage.Below (m, job) (n, job') := .left _ _ h

def Task.stage : Task ε α → Stage ε α
  | running rest => (3, rest)
  | leaving true _ => (2, .panic "")
  | leaving false _ => (1, .panic "")
  | _ => (0, .panic "")

/-- The stages of the jobs that wait. The next one is ahead if it has a permit. -/
def waitingStages (admitted : Bool) : List (Job (Except ε α)) → Multiset (Stage ε α)
  | [] => 0
  | _ :: waiting =>
      (if admitted then 4 else 5, .panic "") ::ₘ Multiset.replicate waiting.length (5, .panic "")

theorem waitingStages_true (job : Job (Except ε α)) (waiting : List (Job (Except ε α))) :
    waitingStages true (job :: waiting) =
      (4, .panic "") ::ₘ Multiset.replicate waiting.length (5, .panic "") := rfl

theorem waitingStages_false (waiting : List (Job (Except ε α))) :
    waitingStages false waiting = Multiset.replicate waiting.length (5, .panic "") := by
  cases waiting with
  | nil => rfl
  | cons job waiting => rfl

/-- The stages of all jobs. -/
def Turns.stages (t : Turns σ ε α) : Multiset (Stage ε α) :=
  ↑(t.tasks.map Task.stage) + waitingStages t.admitted t.waiting

theorem coe_set {τ : Type} {l : List τ} {i : Nat} {old : τ} (h : l[i]? = some old) (new : τ) :
    (↑(l.set i new) : Multiset τ) + {old} = ↑l + {new} := by
  induction l generalizing i with
  | nil => simp at h
  | cons x l ih =>
    cases i with
    | zero =>
      cases h
      simp only [List.set_cons_zero, ← Multiset.cons_coe, ← Multiset.singleton_add]
      abel
    | succ i =>
      have hrest := ih (i := i) (by simpa using h)
      rw [List.set_cons_succ, ← Multiset.cons_coe, ← Multiset.cons_coe, Multiset.cons_add, hrest,
        Multiset.cons_add]

/-- A single job goes to another stage. -/
theorem cutExpand_put {i : Nat} {old task : Task ε α} (hold : t.tasks[i]? = some old)
    (hbelow : Stage.Below task.stage old.stage) (htasks : t'.tasks = t.tasks.set i task)
    (hadmitted : t'.admitted = t.admitted) (hwaiting : t'.waiting = t.waiting) :
    CutExpand Stage.Below t'.stages t.stages := by
  refine ⟨{task.stage}, old.stage, by simpa using hbelow, ?_⟩
  have hstage : (t.tasks.map Task.stage)[i]? = some old.stage := by
    rw [List.getElem?_map, hold]
    rfl
  have hset := coe_set hstage task.stage
  rw [Turns.stages, Turns.stages, htasks, hadmitted, hwaiting, List.map_set, add_right_comm, hset,
    add_right_comm]

/-- Every turn brings a job closer to its end. -/
theorem Turn.cutExpand (h : Turn host t move t') : CutExpand Stage.Below t'.stages t.stages := by
  cases h with
  | @acquire n hfree hidle hnext =>
    obtain ⟨job, waiting, hwaiting⟩ := List.exists_cons_of_ne_nil hnext
    refine ⟨{(4, .panic "")}, (5, .panic ""), by simpa using Stage.below_of_lt (by omega), ?_⟩
    simp only [Turns.stages, hidle, hwaiting, waitingStages_true, waitingStages_false,
      List.length_cons, Multiset.replicate_succ, ← Multiset.singleton_add]
    abel
  | @start job waiting hadmitted hnext hflag =>
    refine ⟨{(3, job)}, (4, .panic ""), by simpa using Stage.below_of_lt (by omega), ?_⟩
    simp only [Turns.stages, hadmitted, hnext, Turns.append, waitingStages_false,
      waitingStages_true, List.map_append, ← Multiset.coe_add, ← Multiset.singleton_add,
      List.map_singleton, Multiset.coe_singleton, Task.stage]
    abel
  | @skip job waiting hadmitted hnext hflag =>
    refine ⟨{(0, .panic "")}, (4, .panic ""), by simpa using Stage.below_of_lt (by omega), ?_⟩
    simp only [Turns.stages, hadmitted, hnext, Turns.append, waitingStages_false,
      waitingStages_true, List.map_append, ← Multiset.coe_add, ← Multiset.singleton_add,
      List.map_singleton, Multiset.coe_singleton, Task.stage]
    abel
  | @ask i request next hrun =>
    have hbelow : Stage.Below (3, .resume next (host.answer request t.host).1.reply)
        (3, .ask request next) := .right _ ⟨request, next, _, rfl, rfl⟩
    refine cutExpand_put hrun ?_ rfl rfl rfl
    exact hbelow
  | @finish i job result hrun hend =>
    refine cutExpand_put hrun ?_ rfl rfl rfl
    cases Outcome.isFailure (.ofResult result : Outcome ε α) <;> exact .left _ _ (by decide)
  | raise hleave =>
    exact cutExpand_put hleave (Stage.below_of_lt (m := 1) (n := 2) (by omega)) rfl rfl rfl
  | release hleave =>
    exact cutExpand_put hleave (Stage.below_of_lt (m := 0) (n := 1) (by omega)) rfl rfl rfl

/-- No order of turns goes on for ever. -/
theorem not_endless (host : Host σ) (f : Nat → Turns σ ε α) :
    ∃ n, ∀ move, ¬ Turn host (f n) move (f (n + 1)) := by
  by_contra hendless
  push Not at hendless
  have hwf : WellFounded (InvImage (CutExpand Stage.Below) (Turns.stages (σ := σ) (ε := ε)
      (α := α))) := InvImage.wf _ Stage.wellFounded_below.cutExpand
  refine (wellFounded_iff_isEmpty_descending_chain.mp hwf).elim ⟨f, fun n => ?_⟩
  obtain ⟨move, hturn⟩ := hendless n
  exact hturn.cutExpand

/-- A job that has a permit can make a turn. -/
theorem exists_turn_of_holds {i : Nat} {task : Task ε α} (htask : t.tasks[i]? = some task)
    (hholds : task.holds = true) : ∃ move t', Turn host t move t' := by
  cases task with
  | running rest =>
    cases rest with
    | done a => exact ⟨_, _, .finish htask rfl⟩
    | panic text => exact ⟨_, _, .finish htask rfl⟩
    | ask request next => exact ⟨_, _, .ask htask⟩
  | leaving armed outcome =>
    cases armed with
    | true => exact ⟨_, _, .raise htask⟩
    | false => exact ⟨_, _, .release htask⟩
  | ended outcome => cases hholds
  | skipped => cases hholds

/-- A pool that is not over is not stuck. -/
theorem Turns.Sound.exists_turn (h : t.Sound jobs width moves) (hover : ¬ t.IsOver) :
    ∃ move t', Turn host t move t' := by
  by_cases hholds : ∃ task ∈ t.tasks, task.holds = true
  · obtain ⟨task, hmem, htask⟩ := hholds
    obtain ⟨i, hi⟩ := List.mem_iff_getElem?.mp hmem
    exact exists_turn_of_holds hi htask
  push Not at hholds
  have hwaiting : t.waiting ≠ [] := fun hnil =>
    hover ⟨hnil, fun task hmem => by simpa using hholds task hmem⟩
  obtain ⟨job, waiting, hnext⟩ := List.exists_cons_of_ne_nil hwaiting
  cases hadmitted : t.admitted with
  | true =>
    cases hflag : t.failed with
    | true => exact ⟨_, _, .skip hadmitted hnext hflag⟩
    | false => exact ⟨_, _, .start hadmitted hnext hflag⟩
  | false =>
    have hheld : t.tasks.countP Task.holds = 0 :=
      List.countP_eq_zero.mpr fun task hmem => by simpa using hholds task hmem
    have hpermits := h.permits
    rw [hadmitted, hheld, Bool.toNat_false] at hpermits
    obtain ⟨n, hn⟩ : ∃ n, t.permits = n + 1 := ⟨t.permits - 1, by omega⟩
    exact ⟨_, _, .acquire hn hadmitted hwaiting⟩

end Pool

end SqlBackup

namespace SqlBackup.Pool

variable {σ ε α : Type} {host : Host σ} {jobs : List (Job (Except ε α))} {width : Nat} {s : σ}
  {moves : List (Move ε α)} {move : Move ε α} {t t' : Turns σ ε α}

/-! ### Jobs that run one after the other -/

/-- A job that has a permit or failed is the last one started. -/
def Turns.Alone (t : Turns σ ε α) : Prop :=
  ∀ (i : Nat) (task : Task ε α), t.tasks[i]? = some task →
    (task.holds = true ∨ ∃ outcome, task.outcome? = some outcome ∧ outcome.isFailure = true) →
    i + 1 = t.started

theorem Turns.Alone.set (h : t.Alone) {i : Nat} {old task : Task ε α}
    (hold : t.tasks[i]? = some old) (hholds : old.holds = true)
    (htasks : t'.tasks = t.tasks.set i task) (hsame : task.isStarted = old.isStarted) :
    t'.Alone := by
  intro j task' htask hlast
  rw [started_set hold htasks hsame]
  rw [htasks] at htask
  rcases t.getElem?_put_eq hold htask with ⟨rfl, -⟩ | ⟨-, hbefore⟩
  · exact h j old hold (.inl hholds)
  · exact h j task' hbefore hlast

/-- A job that has neither a permit nor failed the pool did not fail. -/
theorem Turns.Sound.not_failure (h : t.Sound jobs width moves) (hflag : t.failed = false)
    {task : Task ε α} (hmem : task ∈ t.tasks) (hholds : task.holds = false)
    {outcome : Outcome ε α} (houtcome : task.outcome? = some outcome) :
    outcome.isFailure = false := by
  by_contra hfailure
  rw [Bool.not_eq_false] at hfailure
  cases task with
  | running rest => cases houtcome
  | leaving armed other => cases hholds
  | ended other =>
    rw [h.flagged.raised _ hmem outcome houtcome hfailure] at hflag
    cases hflag
  | skipped =>
    cases houtcome
    cases hfailure

theorem Turns.Alone.turn (hsound : t.Sound jobs 1 moves) (h : t.Alone)
    (hturn : Turn host t move t') : t'.Alone := by
  cases hturn with
  | acquire hfree hidle hnext => exact h
  | @start job waiting hadmitted hnext hflag =>
    -- The loop has the only permit, so all jobs before have ended, and none of them failed.
    have hpermits := hsound.permits
    rw [hadmitted, Bool.toNat_true, max_self] at hpermits
    have hheld : t.tasks.countP Task.holds = 0 := by omega
    rw [List.countP_eq_zero] at hheld
    have hstarted := t.started_append (.running job) waiting
    have hall := hsound.ordered.started_eq hflag
    intro i task htask hlast
    rcases t.getElem?_append_eq waiting htask with hbefore | ⟨rfl, rfl⟩
    · have hmem := List.mem_of_getElem? hbefore
      have hholds : task.holds = false := by simpa using hheld task hmem
      rcases hlast with hholds' | ⟨outcome, houtcome, hfailure⟩
      · rw [hholds] at hholds'
        cases hholds'
      · rw [hsound.not_failure hflag hmem hholds houtcome] at hfailure
        cases hfailure
    · rw [hstarted, hall]
      rfl
  | @skip job waiting hadmitted hnext hflag =>
    have hstarted := t.started_append .skipped waiting
    intro i task htask hlast
    rcases t.getElem?_append_eq waiting htask with hbefore | ⟨rfl, rfl⟩
    · exact (h i task hbefore hlast).trans hstarted.symm
    · rcases hlast with hholds | ⟨outcome, houtcome, hfailure⟩
      · cases hholds
      · cases houtcome
        cases hfailure
  | ask hrun => exact h.set hrun rfl rfl rfl
  | finish hrun hend => exact h.set hrun rfl rfl rfl
  | raise hleave => exact h.set hleave rfl rfl rfl
  | release hleave => exact h.set hleave rfl rfl rfl

theorem History.alone (h : History host (.start width jobs s) moves t) (hwidth : width ≤ 1) :
    t.Alone := by
  have hone : (Turns.start width jobs s : Turns σ ε α) = .start 1 jobs s := by
    rw [Turns.start, Turns.start, max_eq_left hwidth, max_self]
  rw [hone] at h
  induction h with
  | nothing => exact fun i task htask => nomatch htask
  | turn h hturn ih => exact Turns.Alone.turn h.sound ih hturn

/-! ### Behind a failure -/

/-- Once a failed job has given its permit back, the flag is up. -/
theorem Turns.Sound.failed (h : t.Sound jobs width moves) {i : Nat} {outcome : Outcome ε α}
    (hfinish : .finish i outcome ∈ moves) (hrelease : .release i ∈ moves)
    (hfailure : outcome.isFailure = true) : t.failed = true := by
  obtain ⟨task, htask, -, houtcome⟩ := (h.accounts.finished i outcome).mp hfinish
  obtain ⟨other, hended⟩ := h.accounts.released i hrelease
  obtain rfl : task = .ended other := Option.some.inj (htask.symm.trans hended)
  exact h.flagged.raised _ (List.mem_of_getElem? htask) outcome houtcome hfailure

theorem History.not_start (h : History host (.start width jobs s) moves t)
    {before later : List (Move ε α)} {i : Nat} {outcome : Outcome ε α}
    (hmoves : moves = before ++ .release i :: later) (hfinish : .finish i outcome ∈ before)
    (hfailure : outcome.isFailure = true) (j : Nat) : .start j ∉ later := by
  induction h generalizing later with
  | nothing => simp at hmoves
  | @turn moves t move t' h hturn ih =>
    rcases List.eq_nil_or_concat later with rfl | ⟨init, last, rfl⟩
    · simp
    · rw [List.concat_eq_append, ← List.cons_append, ← List.append_assoc] at hmoves
      obtain ⟨rfl, hlast⟩ := List.append_inj' hmoves rfl
      cases hlast
      have hflag := h.sound.failed (List.mem_append_left _ hfinish) (by simp) hfailure
      rw [List.concat_eq_append, List.mem_append, List.mem_singleton, not_or]
      refine ⟨ih rfl, ?_⟩
      rintro rfl
      cases hturn with
      | start hadmitted hnext hdown =>
        rw [hflag] at hdown
        cases hdown

/-! ### The pool as a whole -/

/-- What is known of the outcomes of a pool that is over and started this many jobs. -/
structure Finished (jobs : List (Job (Except ε α))) (width : Nat) (moves : List (Move ε α))
    (started : Nat) (outcomes : List (Outcome ε α)) : Prop where
  length_eq : outcomes.length = jobs.length
  /-- A job that was started has the outcome that its own requests led it to. -/
  came : ∀ (i : Nat) (job : Job (Except ε α)), i < started → jobs[i]? = some job →
    ∃ rest result, job.Leads (askedBy i moves) rest ∧ rest.result? = some result ∧
      outcomes[i]? = some (.ofResult result) ∧ .finish i (.ofResult result) ∈ moves
  skipped : ∀ i, started ≤ i → i < jobs.length → outcomes[i]? = some .skipped
  /-- If any job was skipped, one that was started failed. -/
  blamed : started < jobs.length →
    ∃ i < started, ∃ outcome, outcomes[i]? = some outcome ∧ outcome.isFailure = true
  /-- Jobs that run one after the other end with the first that fails. -/
  alone : width ≤ 1 → ∀ (i : Nat) (outcome : Outcome ε α), outcomes[i]? = some outcome →
    outcome.isFailure = true → i + 1 = started

/-- What is known of a pool behind some turns, in which it started this many jobs. -/
structure Safe (host : Host σ) (jobs : List (Job (Except ε α))) (width : Nat)
    (moves : List (Move ε α)) (t : Turns σ ε α) (started : Nat) : Prop where
  le : started ≤ jobs.length
  /-- Jobs are started in order, each of them once. -/
  starts : moves.filterMap Move.start? = List.range started
  /-- The others ask for nothing. -/
  quiet : ∀ i, started ≤ i → askedBy i moves = []
  /-- No more jobs are unfinished than the pool is wide. -/
  holds_le : t.tasks.countP Task.holds ≤ max 1 width
  /-- Once a failed job has given its permit back, no job is started. -/
  not_start : ∀ (before later : List (Move ε α)) (i : Nat) (outcome : Outcome ε α),
    moves = before ++ .release i :: later → .finish i outcome ∈ before →
    outcome.isFailure = true → ∀ j, .start j ∉ later
  /-- There is another turn until the pool is over. -/
  goesOn : t.IsOver ∨ ∃ move t', Turn host t move t'
  finished : t.IsOver → Finished jobs width moves started t.outcomes

/-- Jobs taken up were started exactly if they are among the first. -/
theorem Turns.Ordered.isStarted_iff (h : t.Ordered jobs moves) {i : Nat} {task : Task ε α}
    (htask : t.tasks[i]? = some task) : task.isStarted = true ↔ i < t.started := by
  have hplace : (t.tasks.map Task.isStarted)[i]? = some task.isStarted := by
    rw [List.getElem?_map, htask]
    rfl
  have hlt := (List.getElem?_eq_some_iff.mp htask).1
  rw [h.places] at hplace
  rcases Nat.lt_or_ge i t.started with hfirst | hlater
  · rw [List.getElem?_append_left (by simpa using hfirst), List.getElem?_replicate,
      if_pos hfirst] at hplace
    simp [← Option.some.inj hplace, hfirst]
  · rw [List.getElem?_append_right (by simpa using hlater), List.length_replicate,
      List.getElem?_replicate, if_pos (by omega)] at hplace
    simp [← Option.some.inj hplace, hlater]

/-- An outcome of a pool that is over is that of its task. -/
theorem Turns.IsOver.outcome_eq (h : t.IsOver) {i : Nat} {task : Task ε α}
    (htask : t.tasks[i]? = some task) :
    ∃ outcome, task.outcome? = some outcome ∧ t.outcomes[i]? = some outcome := by
  have hholds := h.2 task (List.mem_of_getElem? htask)
  have houtcomes : t.outcomes[i]? = some (task.outcome?.getD .skipped) := by
    rw [Turns.outcomes, List.getElem?_map, htask]
    rfl
  cases task with
  | running rest => cases hholds
  | leaving armed outcome => cases hholds
  | ended outcome => exact ⟨outcome, rfl, houtcomes⟩
  | skipped => exact ⟨.skipped, rfl, houtcomes⟩

theorem Turns.Sound.length_eq (h : t.Sound jobs width moves) (hover : t.IsOver) :
    t.tasks.length = jobs.length := by
  have hwaiting := congrArg List.length h.ordered.waiting
  rw [hover.1, List.length_nil, List.length_drop] at hwaiting
  have hle := h.ordered.length_le
  omega

theorem Turns.Sound.finished (h : t.Sound jobs width moves) (hover : t.IsOver)
    (halone : width ≤ 1 → t.Alone) : Finished jobs width moves t.started t.outcomes := by
  have hlength := h.length_eq hover
  have htasks {i : Nat} (hi : i < jobs.length) : ∃ task, t.tasks[i]? = some task :=
    ⟨_, List.getElem?_eq_getElem (by omega)⟩
  refine ⟨?_, fun i job hi hjob => ?_, fun i hi hlt => ?_, fun hlt => ?_,
    fun hwidth i outcome houtcome hfailure => ?_⟩
  · rw [Turns.outcomes, List.length_map, hlength]
  · obtain ⟨task, htask⟩ := htasks (List.getElem?_eq_some_iff.mp hjob).1
    have hstarted := (h.ordered.isStarted_iff htask).mpr hi
    obtain ⟨rest, hrest, hat⟩ := h.accounts.came i job task hjob htask hstarted
    obtain ⟨outcome, houtcome, hresult⟩ := hover.outcome_eq htask
    have hfinish := (h.accounts.finished i outcome).mpr ⟨task, htask, hstarted, houtcome⟩
    have hholds := hover.2 task (List.mem_of_getElem? htask)
    cases task with
    | running rest' => cases hholds
    | leaving armed other => cases hholds
    | skipped => cases hstarted
    | ended other =>
      cases houtcome
      obtain ⟨result, hend, rfl⟩ := hat
      exact ⟨rest, result, hrest, hend, hresult, hfinish⟩
  · obtain ⟨task, htask⟩ := htasks hlt
    obtain ⟨outcome, houtcome, hresult⟩ := hover.outcome_eq htask
    have hnot := mt (h.ordered.isStarted_iff htask).mp (by omega)
    cases task with
    | skipped =>
      cases houtcome
      exact hresult
    | running rest => exact absurd rfl hnot
    | leaving armed other => exact absurd rfl hnot
    | ended other => exact absurd rfl hnot
  · obtain ⟨task, hmem, outcome, houtcome, hfailure⟩ :=
      h.flagged.blamed (h.ordered.flagged (by omega))
    obtain ⟨i, htask⟩ := List.mem_iff_getElem?.mp hmem
    obtain ⟨other, hother, hresult⟩ := hover.outcome_eq htask
    obtain rfl : outcome = other := Option.some.inj (houtcome.symm.trans hother)
    refine ⟨i, (h.ordered.isStarted_iff htask).mp ?_, outcome, hresult, hfailure⟩
    cases task with
    | skipped =>
      cases houtcome
      cases hfailure
    | _ => rfl
  · have hi := (List.getElem?_eq_some_iff.mp houtcome).1
    rw [Turns.outcomes, List.length_map, hlength] at hi
    obtain ⟨task, htask⟩ := htasks hi
    obtain ⟨other, hother, hresult⟩ := hover.outcome_eq htask
    obtain rfl : outcome = other := Option.some.inj (houtcome.symm.trans hresult)
    exact halone hwidth i task htask (.inr ⟨outcome, hother, hfailure⟩)

theorem History.finished (h : History host (.start width jobs s) moves t) (hover : t.IsOver) :
    Finished jobs width moves t.started t.outcomes :=
  h.sound.finished hover h.alone

theorem Runs.finished {s' : σ} {outcomes : List (Outcome ε α)}
    (h : Runs host width jobs s outcomes s') :
    ∃ moves started, Finished jobs width moves started outcomes := by
  obtain ⟨t, ⟨moves, hmoves⟩, hover, rfl, -⟩ := h
  exact ⟨moves, t.started, hmoves.finished hover⟩

/-- A job is skipped only if another failed. -/
theorem Finished.exists_failure {started : Nat} {outcomes : List (Outcome ε α)}
    (h : Finished jobs width moves started outcomes) (hskipped : .skipped ∈ outcomes) :
    ∃ outcome ∈ outcomes, outcome.isFailure = true := by
  obtain ⟨i, hi⟩ := List.mem_iff_getElem?.mp hskipped
  have hlt : i < jobs.length := h.length_eq ▸ (List.getElem?_eq_some_iff.mp hi).1
  have hnot : ¬ i < started := by
    intro hstarted
    obtain ⟨rest, result, -, -, hresult, -⟩ :=
      h.came i jobs[i] hstarted (List.getElem?_eq_getElem hlt)
    exact Outcome.ofResult_ne_skipped result (Option.some.inj (hresult.symm.trans hi))
  obtain ⟨j, -, outcome, houtcome, hfailure⟩ := h.blamed (by omega)
  exact ⟨outcome, List.mem_of_getElem? houtcome, hfailure⟩

/-- Whatever the order of its turns, a pool is safe, and no order of turns goes on for ever. The run
by due times is one of these orders. -/
theorem safe_of_history (host : Host σ) (jobs : List (Job (Except ε α))) (width : Nat) (s : σ) :
    (∀ moves t, History host (.start width jobs s) moves t →
      ∃ started, Safe host jobs width moves t started) ∧
    (∀ f : Nat → Turns σ ε α, f 0 = .start width jobs s →
      ∃ n, ∀ move, ¬ Turn host (f n) move (f (n + 1))) ∧
    Runs host width jobs s (run host width jobs s).pool.outcomes (run host width jobs s).host := by
  refine ⟨fun moves t h => ⟨t.started, ?_⟩, fun f _ => not_endless host f,
    runs_run host width jobs s⟩
  have hsound := h.sound
  have hpermits := hsound.permits
  refine ⟨t.started_le.trans hsound.ordered.length_le, hsound.ordered.starts, fun i hi => ?_,
    by omega, fun before later i outcome hmoves hfinish hfailure => ?_, ?_, h.finished⟩
  · refine hsound.accounts.quiet i fun task htask => ?_
    simpa using mt (hsound.ordered.isStarted_iff htask).mp (by omega)
  · exact h.not_start hmoves hfinish hfailure
  · by_cases hover : t.IsOver
    · exact .inl hover
    · exact .inr (hsound.exists_turn hover)

/-- A job that fails, one that asks for the time, and one that will be skipped. -/
def hastyJobs : List (Job (Except String Nat)) :=
  [.done (.error "no"), .ask .now fun _ => .done (.ok 1), .done (.ok 2)]

/-- The first two jobs are started, and the second ends when the third was skipped already. -/
def hastyMoves : List (Move String Nat) :=
  [.acquire, .start 0, .acquire, .start 1, .finish 0 (.failed "no"), .raise 0, .release 0, .acquire,
    .skip 2, .ask 1 ⟨.now, .ok (default : Scripted.World).now⟩, .finish 1 (.value 1), .release 1]

theorem safe_of_hasty : ∃ t, History Scripted.host (.start 2 hastyJobs default) hastyMoves t ∧
    t.IsOver ∧ t.outcomes = [.failed "no", .value 1, .skipped] ∧
    ∃ started, Safe Scripted.host hastyJobs 2 hastyMoves t started := by
  have h₁ : History Scripted.host (.start 2 hastyJobs default) [.acquire] _ :=
    .single (.acquire rfl rfl (by simp [hastyJobs, Turns.start]))
  have h₂ := h₁.turn (.start rfl rfl rfl)
  have h₃ := h₂.turn (.acquire rfl rfl (by simp [Turns.append]))
  have h₄ := h₃.turn (.start rfl rfl rfl)
  have h₅ := h₄.turn (.finish (i := 0) rfl rfl)
  have h₆ := h₅.turn (.raise (i := 0) rfl)
  have h₇ := h₆.turn (.release (i := 0) rfl)
  have h₈ := h₇.turn (.acquire rfl rfl (by simp [Turns.append, Turns.put]))
  have h₉ := h₈.turn (.skip rfl rfl rfl)
  have h₁₀ := h₉.turn (.ask (i := 1) rfl)
  have h₁₁ := h₁₀.turn (.finish (i := 1) rfl rfl)
  have h₁₂ := h₁₁.turn (.release (i := 1) rfl)
  exact ⟨_, h₁₂, ⟨rfl, by decide⟩, rfl,
    (safe_of_history Scripted.host hastyJobs 2 default).1 hastyMoves _ h₁₂⟩

end SqlBackup.Pool
