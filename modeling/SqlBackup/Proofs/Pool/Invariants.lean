import Mathlib
import SqlBackup.Proofs.Pool.Turns

/-!
# What turns leave as it is

Whatever the order of the turns is, the jobs started are the first ones, the flag tells of a job
that failed, and each job has come as far as its own requests have led it. Each of these facts holds
before the first turn and is kept by every turn.
-/
namespace SqlBackup.Pool

variable {σ ε α : Type} {host : Host σ} {jobs : List (Job (Except ε α))} {width : Nat} {s : σ}
  {moves : List (Move ε α)} {move : Move ε α} {t t' : Turns σ ε α}

/-! ### Places -/

namespace Turns

theorem getElem?_put_self {i : Nat} {old : Task ε α} (h : t.tasks[i]? = some old)
    (task : Task ε α) : (t.put i task).tasks[i]? = some task := by
  obtain ⟨hlt, -⟩ := List.getElem?_eq_some_iff.mp h
  exact List.getElem?_set_self hlt

theorem getElem?_put_ne {i j : Nat} (h : i ≠ j) (task : Task ε α) :
    (t.put i task).tasks[j]? = t.tasks[j]? := List.getElem?_set_ne h

theorem getElem?_append_of_lt {i : Nat} (h : i < t.tasks.length) (task : Task ε α)
    (waiting : List (Job (Except ε α))) :
    (t.append task waiting).tasks[i]? = t.tasks[i]? := List.getElem?_append_left h

theorem getElem?_append_length (t : Turns σ ε α) (task : Task ε α)
    (waiting : List (Job (Except ε α))) :
    (t.append task waiting).tasks[t.tasks.length]? = some task := by
  rw [append, List.getElem?_append_right le_rfl, Nat.sub_self, List.getElem?_cons_zero]

theorem length_append (t : Turns σ ε α) (task : Task ε α) (waiting : List (Job (Except ε α))) :
    (t.append task waiting).tasks.length = t.tasks.length + 1 := by
  rw [append, List.length_append, List.length_singleton]

theorem started_append (t : Turns σ ε α) (task : Task ε α) (waiting : List (Job (Except ε α))) :
    (t.append task waiting).started = t.started + task.isStarted.toNat := by
  rw [started, append, List.countP_append, List.countP_singleton, started]
  cases task.isStarted <;> rfl

theorem started_le (t : Turns σ ε α) : t.started ≤ t.tasks.length := List.countP_le_length

/-- A place behind the last is that of the job taken up. -/
theorem getElem?_append_eq {i : Nat} {task task' : Task ε α} (waiting : List (Job (Except ε α)))
    (h : (t.append task waiting).tasks[i]? = some task') :
    t.tasks[i]? = some task' ∨ i = t.tasks.length ∧ task' = task := by
  rcases Nat.lt_or_ge i t.tasks.length with hlt | hge
  · exact .inl (by rwa [getElem?_append_of_lt hlt] at h)
  · have hlt := (List.getElem?_eq_some_iff.mp h).1
    rw [length_append] at hlt
    obtain rfl : i = t.tasks.length := by omega
    rw [getElem?_append_length] at h
    exact .inr ⟨rfl, (Option.some.inj h).symm⟩

theorem getElem?_put_eq {i j : Nat} {old task task' : Task ε α} (hold : t.tasks[i]? = some old)
    (h : (t.put i task).tasks[j]? = some task') :
    (j = i ∧ task' = task) ∨ (j ≠ i ∧ t.tasks[j]? = some task') := by
  by_cases hij : i = j
  · subst hij
    rw [getElem?_put_self hold] at h
    exact .inl ⟨rfl, (Option.some.inj h).symm⟩
  · rw [getElem?_put_ne hij] at h
    exact .inr ⟨Ne.symm hij, h⟩

end Turns

/-! ### Which jobs were started -/

/-- The jobs started are the first ones, and those behind them were skipped. -/
structure Turns.Ordered (jobs : List (Job (Except ε α))) (moves : List (Move ε α))
    (t : Turns σ ε α) : Prop where
  waiting : t.waiting = jobs.drop t.tasks.length
  length_le : t.tasks.length ≤ jobs.length
  starts : moves.filterMap Move.start? = List.range t.started
  places : t.tasks.map Task.isStarted =
    List.replicate t.started true ++ List.replicate (t.tasks.length - t.started) false
  flagged : t.started < t.tasks.length → t.failed = true

/-- Jobs that stay started, or skipped, are counted as before. -/
theorem Turns.started_set {i : Nat} {old task : Task ε α} (hold : t.tasks[i]? = some old)
    (htasks : t'.tasks = t.tasks.set i task) (hsame : task.isStarted = old.isStarted) :
    t'.started = t.started := by
  have hcount := countP_set_add hold Task.isStarted task
  rw [hsame] at hcount
  rw [started, htasks, started]
  omega

/-- A turn of a job that was started takes nothing up. -/
theorem Turns.Ordered.set (h : t.Ordered jobs moves) {i : Nat} {old task : Task ε α}
    (hold : t.tasks[i]? = some old) (htasks : t'.tasks = t.tasks.set i task)
    (hsame : task.isStarted = old.isStarted) (hwaiting : t'.waiting = t.waiting)
    (hflag : t.failed = true → t'.failed = true) (hmove : move.start? = none) :
    t'.Ordered jobs (moves ++ [move]) := by
  have hmap : t'.tasks.map Task.isStarted = t.tasks.map Task.isStarted := by
    have hplace : (t.tasks.map Task.isStarted)[i]? = some task.isStarted := by
      rw [List.getElem?_map, hold, hsame]
      rfl
    rw [htasks, List.map_set, set_self hplace]
  have hlength : t'.tasks.length = t.tasks.length := by rw [htasks, List.length_set]
  have hstarted := Turns.started_set hold htasks hsame
  refine ⟨?_, ?_, ?_, ?_, ?_⟩
  · rw [hwaiting, hlength, h.waiting]
  · rw [hlength]
    exact h.length_le
  · rw [hstarted, List.filterMap_append, h.starts, List.filterMap_cons_none hmove,
      List.filterMap_nil, List.append_nil]
  · rw [hmap, hstarted, hlength, h.places]
  · rw [hstarted, hlength]
    exact fun hlt => hflag (h.flagged hlt)

theorem Turns.Ordered.drop (h : t.Ordered jobs moves) {job : Job (Except ε α)}
    {waiting : List (Job (Except ε α))} (hnext : t.waiting = job :: waiting) :
    jobs[t.tasks.length]? = some job ∧ waiting = jobs.drop (t.tasks.length + 1) ∧
      t.tasks.length < jobs.length := by
  have hdrop := h.waiting.symm.trans hnext
  have hjob : jobs[t.tasks.length]? = some job := by
    rw [← List.head?_drop, hdrop, List.head?_cons]
  refine ⟨hjob, ?_, (List.getElem?_eq_some_iff.mp hjob).1⟩
  rw [← List.drop_drop, hdrop, List.drop_one, List.tail_cons]

/-- While the flag is down, all jobs taken up were started. -/
theorem Turns.Ordered.started_eq (h : t.Ordered jobs moves) (hflag : t.failed = false) :
    t.started = t.tasks.length := by
  refine (List.countP_le_length).antisymm (Nat.le_of_not_lt fun hlt => ?_)
  rw [h.flagged hlt] at hflag
  cases hflag

theorem Turns.ordered_start : (start width jobs s).Ordered jobs [] :=
  ⟨rfl, Nat.zero_le _, rfl, rfl, fun h => by cases h⟩

theorem Turns.Ordered.turn (h : t.Ordered jobs moves) (hturn : Turn host t move t') :
    t'.Ordered jobs (moves ++ [move]) := by
  cases hturn with
  | acquire hfree hidle hnext =>
    refine ⟨h.waiting, h.length_le, ?_, h.places, h.flagged⟩
    rw [List.filterMap_append, h.starts]
    exact List.append_nil _
  | @start job waiting hadmitted hnext hflag =>
    obtain ⟨-, hwaiting, hlt⟩ := h.drop hnext
    have hall := h.started_eq hflag
    have hstarted := t.started_append (.running job) waiting
    have hlength := t.length_append (.running job) waiting
    rw [show (Task.running job).isStarted = true from rfl, Bool.toNat_true] at hstarted
    refine ⟨?_, ?_, ?_, ?_, fun hless => ?_⟩
    · rw [hlength]
      exact hwaiting
    · rw [hlength]
      exact hlt
    · rw [List.filterMap_append, h.starts, hstarted, List.range_succ, hall]
      rfl
    · rw [hstarted, hlength, hall, Nat.sub_self, Turns.append, List.map_append, h.places, hall]
      simp [Task.isStarted, List.replicate_succ']
    · omega
  | @skip job waiting hadmitted hnext hflag =>
    obtain ⟨-, hwaiting, hlt⟩ := h.drop hnext
    have hstarted := t.started_append .skipped waiting
    have hlength := t.length_append .skipped waiting
    have hle := t.started_le
    rw [Task.isStarted, Bool.toNat_false, Nat.add_zero] at hstarted
    have hskipped : (t.append .skipped waiting).Ordered jobs
        (moves ++ [.skip t.tasks.length]) := by
      refine ⟨?_, ?_, ?_, ?_, fun _ => hflag⟩
      · rw [hlength]
        exact hwaiting
      · rw [hlength]
        exact hlt
      · rw [List.filterMap_append, h.starts, hstarted]
        exact List.append_nil _
      · rw [hstarted, hlength, Nat.sub_add_comm hle, Turns.append, List.map_append, h.places,
          List.append_assoc, List.replicate_succ']
        rfl
    exact ⟨hskipped.waiting, hskipped.length_le, hskipped.starts, hskipped.places,
      hskipped.flagged⟩
  | ask hrun => exact h.set hrun rfl rfl rfl id rfl
  | finish hrun hend => exact h.set hrun rfl rfl rfl id rfl
  | raise hleave => exact h.set hleave rfl rfl rfl (fun _ => rfl) rfl
  | release hleave => exact h.set hleave rfl rfl rfl id rfl

/-! ### What the flag tells -/

/-- Some job failed. -/
def Turns.HasFailure (t : Turns σ ε α) : Prop :=
  ∃ task ∈ t.tasks, ∃ outcome, task.outcome? = some outcome ∧ outcome.isFailure = true

/-- The flag is up if a job failed that has raised it or never had to, and only if a job failed. -/
structure Turns.Flagged (t : Turns σ ε α) : Prop where
  armed : ∀ outcome, .leaving true outcome ∈ t.tasks → outcome.isFailure = true
  raised : ∀ task ∈ t.tasks, ∀ outcome, task.settled? = some outcome →
    outcome.isFailure = true → t.failed = true
  blamed : t.failed = true → t.HasFailure

/-- What failed has still failed when a job that keeps its outcome is put into another place. -/
theorem Turns.HasFailure.put (h : t.HasFailure) {i : Nat} {old task : Task ε α}
    (hold : t.tasks[i]? = some old)
    (hkeep : ∀ outcome, old.outcome? = some outcome → task.outcome? = some outcome) :
    (t.put i task).HasFailure := by
  obtain ⟨other, hmem, outcome, houtcome, hfailure⟩ := h
  obtain ⟨j, hj⟩ := List.mem_iff_getElem?.mp hmem
  by_cases hij : i = j
  · subst hij
    obtain rfl : old = other := Option.some.inj (hold.symm.trans hj)
    exact ⟨task, List.mem_of_getElem? (t.getElem?_put_self hold task), outcome,
      hkeep outcome houtcome, hfailure⟩
  · exact ⟨other, List.mem_of_getElem? ((t.getElem?_put_ne hij task).trans hj), outcome, houtcome,
      hfailure⟩

theorem Turns.mem_put {i : Nat} {task task' : Task ε α} (h : task' ∈ (t.put i task).tasks) :
    task' ∈ t.tasks ∨ task' = task := List.mem_or_eq_of_mem_set h

theorem Turns.mem_append {task task' : Task ε α} (waiting : List (Job (Except ε α))) :
    task' ∈ (t.append task waiting).tasks ↔ task' ∈ t.tasks ∨ task' = task := by
  rw [append, List.mem_append, List.mem_singleton]

theorem Turns.HasFailure.append (h : t.HasFailure) (task : Task ε α)
    (waiting : List (Job (Except ε α))) : (t.append task waiting).HasFailure := by
  obtain ⟨other, hmem, hrest⟩ := h
  exact ⟨other, (Turns.mem_append waiting).mpr (.inl hmem), hrest⟩

theorem Turns.flagged_start : (start width jobs s).Flagged :=
  ⟨fun _ h => (nomatch h), fun _ h => (nomatch h), fun h => (nomatch h)⟩

theorem Turns.Flagged.append (h : t.Flagged) (task : Task ε α)
    (harmed : ∀ outcome, task ≠ .leaving true outcome) (hsettled : task.settled? = none)
    (waiting : List (Job (Except ε α))) : (t.append task waiting).Flagged := by
  refine ⟨fun outcome hmem => ?_, fun other hmem outcome houtcome => ?_, fun hfailed => ?_⟩
  · rcases (Turns.mem_append waiting).mp hmem with hbefore | hnew
    · exact h.armed outcome hbefore
    · exact absurd hnew.symm (harmed outcome)
  · rcases (Turns.mem_append waiting).mp hmem with hbefore | rfl
    · exact h.raised other hbefore outcome houtcome
    · rw [hsettled] at houtcome
      cases houtcome
  · exact (h.blamed hfailed).append task waiting

/-- A job may be put into another place if the flag tells of it there, and its outcome is kept. -/
theorem Turns.Flagged.put (h : t.Flagged) {i : Nat} {old : Task ε α} (task : Task ε α)
    (hold : t.tasks[i]? = some old)
    (harmed : ∀ outcome, task = .leaving true outcome → outcome.isFailure = true)
    (hraised : ∀ outcome, task.settled? = some outcome → outcome.isFailure = true →
      t.failed = true)
    (hkeep : ∀ outcome, old.outcome? = some outcome → task.outcome? = some outcome) :
    (t.put i task).Flagged := by
  refine ⟨fun outcome hmem => ?_, fun other hmem outcome houtcome => ?_, fun hfailed => ?_⟩
  · rcases Turns.mem_put hmem with hbefore | hnew
    · exact h.armed outcome hbefore
    · exact harmed outcome hnew.symm
  · rcases Turns.mem_put hmem with hbefore | rfl
    · exact h.raised other hbefore outcome houtcome
    · exact hraised outcome houtcome
  · exact (h.blamed hfailed).put hold hkeep

/-- A job that failed is armed, and so it is not settled. -/
theorem Task.not_isFailure_of_settled? {result : Except String (Except ε α)}
    {outcome : Outcome ε α}
    (h : (Task.leaving (Outcome.isFailure (.ofResult result)) (.ofResult result)).settled? =
      some outcome) : outcome.isFailure = false := by
  cases hfails : Outcome.isFailure (.ofResult result : Outcome ε α) with
  | true =>
    rw [hfails] at h
    cases h
  | false =>
    rw [hfails] at h
    cases h
    exact hfails

theorem Turns.Flagged.turn (h : t.Flagged) (hturn : Turn host t move t') : t'.Flagged := by
  cases hturn with
  | acquire hfree hidle hnext => exact ⟨h.armed, h.raised, h.blamed⟩
  | start hadmitted hnext hflag => exact h.append (.running _) (fun _ hleave => nomatch hleave) rfl _
  | @skip job waiting hadmitted hnext hflag =>
    have hskipped := h.append .skipped (fun _ hleave => nomatch hleave) rfl waiting
    exact ⟨hskipped.armed, hskipped.raised, hskipped.blamed⟩
  | @ask i request next hrun =>
    have hasked (rest : Job (Except ε α)) : (t.put i (.running rest)).Flagged :=
      h.put (.running rest) hrun (fun _ hleave => nomatch hleave)
        (fun _ hsettled => nomatch hsettled) fun _ hnone => nomatch hnone
    exact ⟨(hasked _).armed, (hasked _).raised, (hasked _).blamed⟩
  | @finish i job result hrun hend =>
    refine h.put _ hrun (fun outcome hleave => ?_) (fun outcome hsettled hfailure => ?_)
      fun _ hnone => nomatch hnone
    · injection hleave with harmed houtcome
      rw [← houtcome, harmed]
    · rw [Task.not_isFailure_of_settled? hsettled] at hfailure
      cases hfailure
  | @raise i outcome hleave =>
    have hfailure := h.armed outcome (List.mem_of_getElem? hleave)
    refine ⟨fun other hmem => ?_, fun _ _ _ _ _ => rfl, fun _ => ?_⟩
    · rcases Turns.mem_put hmem with hold | hnew
      · exact h.armed other hold
      · cases hnew
    · exact ⟨_, List.mem_of_getElem? (t.getElem?_put_self hleave _), outcome, rfl, hfailure⟩
  | @release i outcome hleave =>
    have hraised := h.raised (.leaving false outcome) (List.mem_of_getElem? hleave)
    have hreleased := h.put (.ended outcome) hleave (fun _ hended => nomatch hended) hraised
      fun _ hsame => hsame
    exact ⟨hreleased.armed, hreleased.raised, hreleased.blamed⟩

/-! ### How far each job is -/

/-- What a job has asked in some turns. -/
def askedBy (i : Nat) (moves : List (Move ε α)) : List Asked := moves.filterMap (Move.asked? i)

theorem askedBy_append (i : Nat) (moves : List (Move ε α)) (move : Move ε α) :
    askedBy i (moves ++ [move]) = askedBy i moves ++ (move.asked? i).toList := by
  rw [askedBy, List.filterMap_append, askedBy]
  cases h : move.asked? i <;> simp [h]

/-- Each job taken up is where its requests have led it, and the turns tell of its end. -/
structure Turns.Accounts (jobs : List (Job (Except ε α))) (moves : List (Move ε α))
    (t : Turns σ ε α) : Prop where
  came : ∀ (i : Nat) (job : Job (Except ε α)) (task : Task ε α), jobs[i]? = some job →
    t.tasks[i]? = some task → task.isStarted = true →
    ∃ rest, job.Leads (askedBy i moves) rest ∧ task.At rest
  quiet : ∀ i, (∀ task, t.tasks[i]? = some task → task.isStarted = false) → askedBy i moves = []
  finished : ∀ i outcome, .finish i outcome ∈ moves ↔
    ∃ task, t.tasks[i]? = some task ∧ task.isStarted = true ∧ task.outcome? = some outcome
  released : ∀ i, .release i ∈ moves → ∃ outcome, t.tasks[i]? = some (.ended outcome)

theorem Turns.accounts_start : (start width jobs s).Accounts jobs [] where
  came _ _ _ _ htask := nomatch htask
  quiet _ _ := rfl
  finished _ _ := ⟨fun h => (nomatch h), fun ⟨_, h, _⟩ => (nomatch h)⟩
  released _ h := nomatch h

/-- A turn of a job that was started is told of that job only. -/
theorem Turns.Accounts.set (h : t.Accounts jobs moves) {i : Nat} {old task : Task ε α}
    (hold : t.tasks[i]? = some old) (htasks : t'.tasks = t.tasks.set i task)
    (hstarted : old.isStarted = true) (hstarted' : task.isStarted = true)
    (hnot : ∀ outcome, old ≠ .ended outcome)
    (hasked : ∀ j, j ≠ i → move.asked? j = none)
    (hcame : ∀ job rest, jobs[i]? = some job → job.Leads (askedBy i moves) rest → old.At rest →
      ∃ rest', job.Leads (askedBy i (moves ++ [move])) rest' ∧ task.At rest')
    (hfinish : ∀ j outcome, (move = .finish j outcome ∨ j = i ∧ old.outcome? = some outcome) ↔
      j = i ∧ task.outcome? = some outcome)
    (hrelease : ∀ j, move = .release j → j = i ∧ ∃ outcome, task = .ended outcome) :
    t'.Accounts jobs (moves ++ [move]) := by
  have hself : t'.tasks[i]? = some task := by
    rw [htasks]
    exact t.getElem?_put_self hold task
  have hother (j : Nat) (hne : j ≠ i) : t'.tasks[j]? = t.tasks[j]? := by
    rw [htasks]
    exact t.getElem?_put_ne hne.symm task
  refine ⟨fun j job task' hjob htask hstart => ?_, fun j hj => ?_, fun j outcome => ?_,
    fun j hmem => ?_⟩
  · by_cases hne : j = i
    · subst hne
      obtain rfl : task = task' := Option.some.inj (hself.symm.trans htask)
      obtain ⟨rest, hrest, hat⟩ := h.came j job old hjob hold hstarted
      exact hcame job rest hjob hrest hat
    · rw [hother j hne] at htask
      rw [askedBy_append, hasked j hne, Option.toList_none, List.append_nil]
      exact h.came j job task' hjob htask hstart
  · by_cases hne : j = i
    · subst hne
      rw [hj task hself] at hstarted'
      cases hstarted'
    · rw [askedBy_append, hasked j hne, Option.toList_none, List.append_nil]
      exact h.quiet j fun task' htask => hj task' (by rw [hother j hne, htask])
  · rw [List.mem_append, List.mem_singleton, h.finished, eq_comm (a := Move.finish j outcome)]
    by_cases hne : j = i
    · subst hne
      simp only [hself, hold, Option.some.injEq, exists_eq_left', hstarted, hstarted', true_and]
      have hiff := hfinish j outcome
      simp only [true_and] at hiff
      rw [or_comm, hiff]
    · have hnone : move ≠ .finish j outcome := fun heq => hne ((hfinish j outcome).mp (.inl heq)).1
      simp only [hother j hne, hnone, or_false]
  · rcases List.mem_append.mp hmem with hmem | hmem
    · obtain ⟨outcome, houtcome⟩ := h.released j hmem
      by_cases hne : j = i
      · subst hne
        exact absurd (Option.some.inj (hold.symm.trans houtcome)) (hnot outcome)
      · exact ⟨outcome, by rw [hother j hne, houtcome]⟩
    · obtain ⟨rfl, outcome, rfl⟩ := hrelease j (List.mem_singleton.mp hmem).symm
      exact ⟨outcome, hself⟩

/-- A job taken up has not asked anything. -/
theorem Turns.Accounts.append (h : t.Accounts jobs moves) (task : Task ε α)
    (waiting : List (Job (Except ε α))) (htasks : t'.tasks = (t.append task waiting).tasks)
    (hat : task.isStarted = true → ∃ job, jobs[t.tasks.length]? = some job ∧ task = .running job)
    (hasked : ∀ j, move.asked? j = none) (hfinish : ∀ j outcome, move ≠ .finish j outcome)
    (hrelease : ∀ j, move ≠ .release j) : t'.Accounts jobs (moves ++ [move]) := by
  have hbefore (j : Nat) : askedBy j (moves ++ [move]) = askedBy j moves := by
    rw [askedBy_append, hasked j, Option.toList_none, List.append_nil]
  have hkept {j : Nat} {task' : Task ε α} (htask : t.tasks[j]? = some task') :
      t'.tasks[j]? = some task' := by
    rw [htasks, t.getElem?_append_of_lt (List.getElem?_eq_some_iff.mp htask).1, htask]
  refine ⟨fun j job task' hjob htask hstart => ?_, fun j hj => ?_, fun j outcome => ?_,
    fun j hmem => ?_⟩
  · rw [hbefore]
    rw [htasks] at htask
    rcases t.getElem?_append_eq waiting htask with htask | ⟨rfl, rfl⟩
    · exact h.came j job task' hjob htask hstart
    · obtain ⟨job', hjob', rfl⟩ := hat hstart
      obtain rfl : job = job' := Option.some.inj (hjob.symm.trans hjob')
      have hquiet : askedBy t.tasks.length moves = [] :=
        h.quiet _ fun task' htask' => by simp at htask'
      exact ⟨job, hquiet ▸ .nothing, rfl⟩
  · rw [hbefore]
    exact h.quiet j fun task' htask => hj task' (hkept htask)
  · rw [List.mem_append, List.mem_singleton, h.finished]
    constructor
    · rintro (⟨task', htask, hrest⟩ | heq)
      · exact ⟨task', hkept htask, hrest⟩
      · exact absurd heq.symm (hfinish j outcome)
    · rintro ⟨task', htask, hstart, houtcome⟩
      rw [htasks] at htask
      rcases t.getElem?_append_eq waiting htask with htask | ⟨rfl, rfl⟩
      · exact .inl ⟨task', htask, hstart, houtcome⟩
      · obtain ⟨job, -, rfl⟩ := hat hstart
        cases houtcome
  · rcases List.mem_append.mp hmem with hmem | hmem
    · obtain ⟨outcome, houtcome⟩ := h.released j hmem
      exact ⟨outcome, hkept houtcome⟩
    · exact absurd (List.mem_singleton.mp hmem).symm (hrelease j)

theorem Turns.Accounts.turn (h : t.Accounts jobs moves) (hordered : t.Ordered jobs moves)
    (hturn : Turn host t move t') : t'.Accounts jobs (moves ++ [move]) := by
  cases hturn with
  | acquire hfree hidle hnext =>
    have hbefore (j : Nat) : askedBy j (moves ++ [(.acquire : Move ε α)]) = askedBy j moves := by
      rw [askedBy_append]
      exact List.append_nil _
    refine ⟨fun j => hbefore j ▸ h.came j, fun j => hbefore j ▸ h.quiet j, fun j outcome => ?_,
      fun j hmem => h.released j ?_⟩
    · rw [← h.finished, List.mem_append]
      exact or_iff_left fun hmem => nomatch List.mem_singleton.mp hmem
    · exact (List.mem_append.mp hmem).resolve_right fun hmem => nomatch List.mem_singleton.mp hmem
  | @start job waiting hadmitted hnext hflag =>
    exact h.append (.running job) waiting rfl (fun _ => ⟨job, (hordered.drop hnext).1, rfl⟩)
      (fun _ => rfl) (fun _ _ h => (nomatch h)) fun _ h => (nomatch h)
  | @skip job waiting hadmitted hnext hflag =>
    exact h.append .skipped waiting rfl (fun h => (nomatch h))
      (fun _ => rfl) (fun _ _ h => (nomatch h)) fun _ h => (nomatch h)
  | @ask i request next hrun =>
    refine h.set hrun rfl rfl rfl (fun _ h => (nomatch h)) (fun j hne => if_neg hne.symm)
      (fun job rest _ hrest hat => ?_) (fun j outcome => ?_) fun _ h => (nomatch h)
    · obtain rfl : Job.ask request next = rest := hat
      refine ⟨_, ?_, rfl⟩
      rw [askedBy_append, Move.asked?, if_pos rfl]
      exact hrest.ask _
    · simp [Task.outcome?]
  | @finish i job result hrun hend =>
    refine h.set hrun rfl rfl rfl (fun _ h => (nomatch h)) (fun j hne => rfl)
      (fun job' rest _ hrest hat => ?_) (fun j outcome => ?_) fun _ h => (nomatch h)
    · obtain rfl : job = rest := hat
      rw [askedBy_append]
      exact ⟨job, by simpa [Move.asked?] using hrest, result, hend, rfl⟩
    · simp [Task.outcome?, eq_comm]
  | @raise i outcome hleave =>
    refine h.set hleave rfl rfl rfl (fun _ h => (nomatch h)) (fun j hne => rfl)
      (fun job rest _ hrest hat => ?_) (fun j other => ?_) fun _ h => (nomatch h)
    · rw [askedBy_append]
      exact ⟨rest, by simpa [Move.asked?] using hrest, hat⟩
    · simp [Task.outcome?]
  | @release i outcome hleave =>
    refine h.set hleave rfl rfl rfl (fun _ h => (nomatch h)) (fun j hne => rfl)
      (fun job rest _ hrest hat => ?_) (fun j other => ?_) fun j hsame => ?_
    · rw [askedBy_append]
      exact ⟨rest, by simpa [Move.asked?] using hrest, hat⟩
    · simp [Task.outcome?]
    · cases hsame
      exact ⟨rfl, outcome, rfl⟩

/-! ### Behind any turns -/

/-- All that is known of a pool behind any turns. -/
structure Turns.Sound (jobs : List (Job (Except ε α))) (width : Nat) (moves : List (Move ε α))
    (t : Turns σ ε α) : Prop where
  width_eq : t.width = max 1 width
  permits : t.permits + t.admitted.toNat + t.tasks.countP Task.holds = max 1 width
  ordered : t.Ordered jobs moves
  flagged : t.Flagged
  accounts : t.Accounts jobs moves

theorem Turns.sound_start : (start width jobs s).Sound jobs width [] :=
  ⟨rfl, rfl, ordered_start, flagged_start, accounts_start⟩

theorem Turns.Sound.turn (h : t.Sound jobs width moves) (hturn : Turn host t move t') :
    t'.Sound jobs width (moves ++ [move]) :=
  ⟨hturn.width_eq.trans h.width_eq, hturn.permits.trans h.permits, h.ordered.turn hturn,
    h.flagged.turn hturn, h.accounts.turn h.ordered hturn⟩

theorem Turns.Sound.on (h : t.Sound jobs width moves) (s' : σ) :
    (t.on s').Sound jobs width moves := by
  obtain ⟨hwidth, hpermits, hordered, hflagged, haccounts⟩ := h
  refine ⟨hwidth, hpermits, ?_, ?_, ?_⟩
  · exact ⟨hordered.waiting, hordered.length_le, hordered.starts, hordered.places, hordered.flagged⟩
  · exact ⟨hflagged.armed, hflagged.raised, hflagged.blamed⟩
  · exact ⟨haccounts.came, haccounts.quiet, haccounts.finished, haccounts.released⟩

theorem History.sound (h : History host (.start width jobs s) moves t) :
    t.Sound jobs width moves := by
  induction h with
  | nothing => exact Turns.sound_start
  | turn _ hturn ih => exact ih.turn hturn

end SqlBackup.Pool
