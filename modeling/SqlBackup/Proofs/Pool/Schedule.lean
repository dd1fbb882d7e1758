import Mathlib
import SqlBackup.Plan
import SqlBackup.Proofs.Pool.Invariants

/-!
# The run by due times

A pool that lets each job do all that it does at once when it starts, and takes note of its end when
that is due, runs the jobs in one of the orders of turns. What a plan comes to may depend on that
order. Where no job failed, each came to a value: a job that was skipped is told by the failure of
another.
-/
namespace SqlBackup.Pool

variable {σ ε α : Type}

namespace Run

theorem perm_of_earliest {ps rest : List (Pending ε α)} {p : Pending ε α}
    (h : earliest ps = some (p, rest)) : ps.Perm (p :: rest) := by
  induction ps generalizing p rest with
  | nil => cases h
  | cons q ps ih =>
    rw [earliest] at h
    split at h
    · next hnone =>
      cases h
      cases ps with
      | nil => exact List.Perm.refl _
      | cons q' ps =>
        rw [earliest] at hnone
        split at hnone
        · cases hnone
        · split at hnone <;> cases hnone
    · next q' rest' hsome =>
      split at h
      · cases h
        exact List.Perm.refl _
      · cases h
        exact ((ih hsome).cons q).trans (List.Perm.swap _ _ _)

theorem earliest_ne_none {ps : List (Pending ε α)} (h : ps ≠ []) : earliest ps ≠ none := by
  cases ps with
  | nil => exact absurd rfl h
  | cons p ps =>
    rw [earliest]
    split
    · simp
    · split <;> simp

end Run

/-! ### What a job does alone -/

variable {host : Host σ} {t : Turns σ ε α}

theorem Turns.put_self {i : Nat} {task : Task ε α} (h : t.tasks[i]? = some task) :
    t.put i task = t := by
  rw [put, set_self h]

/-- A job that has all turns for itself does what it does in a run of its own. -/
theorem reaches_run (host : Host σ) {i : Nat} {job : Job (Except ε α)}
    (hrun : t.tasks[i]? = some (.running job)) :
    ∃ rest, rest.result? = some (job.run host t.host).1.result ∧
      Reaches host t { t.put i (.running rest) with host := (job.run host t.host).2 } := by
  induction job generalizing t with
  | done a =>
    refine ⟨.done a, rfl, ?_⟩
    rw [Job.run, Turns.put_self hrun]
    exact .refl t
  | panic text =>
    refine ⟨.panic text, rfl, ?_⟩
    rw [Job.run, Turns.put_self hrun]
    exact .refl t
  | ask request next ih =>
    have hturn := (Turn.ask hrun : Turn host t _ _).reaches
    cases hr : (host.answer request t.host).1.reply with
    | error text =>
      rw [hr] at hturn
      simp only [Job.run, hr]
      exact ⟨.panic text, rfl, hturn⟩
    | ok reply =>
      rw [hr] at hturn
      obtain ⟨rest, hrest, hturns⟩ := @ih reply
        { t.put i (.running (next reply)) with host := (host.answer request t.host).2 }
        (t.getElem?_put_self hrun _)
      simp only [Job.run, hr]
      refine ⟨rest, hrest, hturn.trans ?_⟩
      simp only [Turns.put, List.set_set] at hturns
      exact hturns

/-- The end of a job, up to where its permit is free. -/
theorem reaches_ended (host : Host σ) {i : Nat} {job : Job (Except ε α)}
    {result : Except String (Except ε α)} (hrun : t.tasks[i]? = some (.running job))
    (hend : job.result? = some result) :
    Reaches host t
      { t.put i (.ended (.ofResult result)) with
        failed := t.failed || Outcome.isFailure (.ofResult result : Outcome ε α)
        permits := t.permits + 1 } := by
  have hfinish := (Turn.finish hrun hend : Turn host t _ _).reaches
  cases hfails : Outcome.isFailure (.ofResult result : Outcome ε α) with
  | false =>
    rw [hfails] at hfinish
    refine hfinish.trans ?_
    have hrelease := (Turn.release (t.getElem?_put_self hrun (.leaving false (.ofResult result))) :
      Turn host _ _ _).reaches
    simpa only [Turns.put, List.set_set, Bool.or_false] using hrelease
  | true =>
    rw [hfails] at hfinish
    refine hfinish.trans ?_
    have hput := t.getElem?_put_self hrun (.leaving true (.ofResult result))
    refine (Turn.raise hput : Turn host _ _ _).reaches.trans ?_
    have hrelease := (Turn.release
      (Turns.getElem?_put_self hput (.leaving false (.ofResult result))) : Turn host
        { (t.put i (.leaving true (.ofResult result))).put i
            (.leaving false (.ofResult result)) with failed := true } _ _).reaches
    simpa only [Turns.put, List.set_set, Bool.or_true] using hrelease

theorem Turns.put_append (t : Turns σ ε α) (task task' : Task ε α)
    (waiting : List (Job (Except ε α))) :
    (t.append task waiting).put t.tasks.length task' = t.append task' waiting := by
  simp only [put, append, List.set_append_right _ _ le_rfl, Nat.sub_self, List.set_cons_zero]

/-! ### Following a run -/

/-- Where each job is, as the pool tells it. -/
def Turns.pool (t : Turns σ ε α) : State ε α := ⟨t.width, t.tasks.map Task.slot, t.failed⟩

/-- The turns have led to where the run is, but for the ends of jobs that have nothing more to
ask. -/
structure Follows (r : Run σ ε α) (t : Turns σ ε α) : Prop where
  pool : t.pool = r.pool
  host : t.host = r.host
  idle : t.admitted = false
  permits : t.permits + t.tasks.countP Task.holds = t.width
  pending : ∀ p ∈ r.pending, ∃ job result, t.tasks[p.job]? = some (.running job) ∧
    job.result? = some result ∧ p.outcome = .ofResult result
  holding : ∀ (i : Nat) (task : Task ε α), t.tasks[i]? = some task → task.holds = true →
    ∃ p ∈ r.pending, p.job = i
  nodup : (r.pending.map (·.job)).Nodup
  width_pos : 0 < r.pool.width

variable {r : Run σ ε α}

theorem Turns.busy_pool (t : Turns σ ε α) : t.pool.busy = t.tasks.countP Task.holds := by
  rw [State.busy, pool, List.countP_map]
  congr 1
  funext task
  cases task <;> rfl

/-- There is room for another job as long as a permit is free. -/
theorem Follows.hasRoom_iff (h : Follows r t) : r.pool.hasRoom = true ↔ 0 < t.permits := by
  have hpermits := h.permits
  have hwidth : t.width = r.pool.width := congrArg State.width h.pool
  rw [State.hasRoom, decide_eq_true_iff, ← h.pool, t.busy_pool]
  simp only [Turns.pool]
  omega

theorem Follows.length_eq (h : Follows r t) : r.pool.slots.length = t.tasks.length := by
  rw [← h.pool, Turns.pool, List.length_map]

theorem Follows.job_lt (h : Follows r t) {p : Pending ε α} (hp : p ∈ r.pending) :
    p.job < t.tasks.length := by
  obtain ⟨job, result, hrun, -⟩ := h.pending p hp
  exact (List.getElem?_eq_some_iff.mp hrun).1

/-- The end of a job. -/
theorem Follows.step (host : Host σ) (h : Follows r t) (hpending : r.pending ≠ []) :
    ∃ t', Reaches host t t' ∧ Follows r.step t' ∧ t'.waiting = t.waiting ∧
      r.step.pending.length + 1 = r.pending.length ∧ r.step.pool.hasRoom = true := by
  cases hearliest : Run.earliest r.pending with
  | none => exact absurd hearliest (Run.earliest_ne_none hpending)
  | some found =>
    obtain ⟨p, rest⟩ := found
    have hperm := Run.perm_of_earliest hearliest
    obtain ⟨job, result, hrun, hend, houtcome⟩ := h.pending p (hperm.mem_iff.mpr (by simp))
    have hnodup : ((p :: rest).map (·.job)).Nodup := (hperm.map _).nodup_iff.mp h.nodup
    rw [List.map_cons, List.nodup_cons] at hnodup
    have hstep : r.step =
        { r with
          pool := r.pool.complete p.job p.outcome
          clock := max r.clock p.due
          pending := rest
          moments := r.moments ++ [.ended p.job] } := by
      rw [Run.step, hearliest]
    have hfollows : Follows r.step
        { t.put p.job (.ended (.ofResult result)) with
          failed := t.failed || Outcome.isFailure (.ofResult result : Outcome ε α)
          permits := t.permits + 1 } := by
      rw [hstep]
      refine ⟨?_, h.host, h.idle, ?_, fun q hq => ?_, fun i task htask hholds => ?_, hnodup.2,
        h.width_pos⟩
      · rw [houtcome, ← h.pool]
        simp [Turns.pool, Turns.put, State.complete, List.map_set, Task.slot]
      · have hpermits := h.permits
        have hcount := countP_set_add hrun Task.holds (.ended (.ofResult result))
        simp only [Turns.put, Task.holds, Bool.toNat_true, Bool.toNat_false] at hcount ⊢
        omega
      · have hne : p.job ≠ q.job := fun heq => hnodup.1 (heq ▸ List.mem_map_of_mem hq)
        obtain ⟨job', result', hrun', hrest⟩ := h.pending q (hperm.mem_iff.mpr (by simp [hq]))
        exact ⟨job', result', (t.getElem?_put_ne hne _).trans hrun', hrest⟩
      · rcases t.getElem?_put_eq hrun htask with ⟨-, rfl⟩ | ⟨hne, hbefore⟩
        · cases hholds
        · obtain ⟨q, hq, rfl⟩ := h.holding i task hbefore hholds
          rcases List.mem_cons.mp (hperm.mem_iff.mp hq) with rfl | hq'
          · exact absurd rfl hne
          · exact ⟨q, hq', rfl⟩
    refine ⟨_, reaches_ended host hrun hend, hfollows, rfl, ?_, ?_⟩
    · rw [hstep, hperm.length_eq, List.length_cons]
    · rw [hfollows.hasRoom_iff]
      exact Nat.succ_pos _

/-- Before a job is taken up there is a permit for it. -/
theorem Follows.room (host : Host σ) (h : Follows r t) :
    ∃ t', Reaches host t t' ∧ t'.waiting = t.waiting ∧
      Follows (if r.pool.hasRoom then r else r.step) t' ∧ 0 < t'.permits := by
  by_cases hroom : r.pool.hasRoom = true
  · rw [if_pos hroom]
    exact ⟨t, .refl t, rfl, h, h.hasRoom_iff.mp hroom⟩
  · rw [if_neg hroom]
    have hpending : r.pending ≠ [] := by
      rw [h.hasRoom_iff] at hroom
      have hpermits := h.permits
      have hwidth : t.width = r.pool.width := congrArg State.width h.pool
      have hwidth_pos := h.width_pos
      have hheld : 0 < t.tasks.countP Task.holds := by omega
      obtain ⟨task, hmem, hholds⟩ := List.countP_pos_iff.mp hheld
      obtain ⟨i, hi⟩ := List.mem_iff_getElem?.mp hmem
      obtain ⟨p, hp, -⟩ := h.holding i task hi hholds
      exact List.ne_nil_of_mem hp
    obtain ⟨t', hturns, hfollows, hwaiting, -, hroom'⟩ := h.step host hpending
    exact ⟨t', hturns, hwaiting, hfollows, hfollows.hasRoom_iff.mp hroom'⟩

/-- After a failure a job that is taken up is skipped. -/
theorem Follows.skip (h : Follows r t) (hfailed : t.failed = true)
    (waiting : List (Job (Except ε α))) :
    Follows { r with pool := r.pool.take } (t.append .skipped waiting) where
  pool := by
    rw [← h.pool]
    simp [Turns.pool, Turns.append, State.take, hfailed, Task.slot]
  host := h.host
  idle := rfl
  permits := by
    have hpermits := h.permits
    simpa [Turns.append, List.countP_append, Task.holds] using hpermits
  pending p hp := by
    obtain ⟨job', result, hrun, hrest⟩ := h.pending p hp
    exact ⟨job', result, (t.getElem?_append_of_lt (h.job_lt hp) _ _).trans hrun, hrest⟩
  holding i task htask hholds := by
    rcases t.getElem?_append_eq waiting htask with hbefore | ⟨-, rfl⟩
    · exact h.holding i task hbefore hholds
    · cases hholds
  nodup := h.nodup
  width_pos := h.width_pos

/-- Otherwise it is started, and makes all its requests. -/
theorem Follows.start (h : Follows r t) (hfailed : t.failed = false) (rest : Job (Except ε α))
    (result : Except String (Except ε α)) (hrest : rest.result? = some result)
    (waiting : List (Job (Except ε α))) (due : Nat) (moments : List Moment) (s : σ) {n : Nat}
    (hn : t.permits = n + 1) :
    Follows
      { r with
        pool := r.pool.take
        pending := r.pending ++ [⟨r.pool.slots.length, due, .ofResult result⟩]
        moments
        host := s }
      { t.append (.running rest) waiting with permits := n, host := s } where
  pool := by
    rw [← h.pool]
    simp [Turns.pool, Turns.append, State.take, hfailed, Task.slot]
  host := rfl
  idle := rfl
  permits := by
    have hpermits := h.permits
    simp only [Turns.append, List.countP_append, List.countP_singleton, Task.holds, if_true]
    omega
  pending p hp := by
    rcases List.mem_append.mp hp with hold | hnew
    · obtain ⟨job', result', hrun, hrest'⟩ := h.pending p hold
      exact ⟨job', result', (t.getElem?_append_of_lt (h.job_lt hold) _ waiting).trans hrun, hrest'⟩
    · rw [List.mem_singleton] at hnew
      subst hnew
      refine ⟨rest, result, ?_, hrest, rfl⟩
      rw [h.length_eq]
      exact t.getElem?_append_length _ waiting
  holding i task htask hholds := by
    rcases t.getElem?_append_eq waiting htask with hbefore | ⟨rfl, -⟩
    · obtain ⟨p, hp, heq⟩ := h.holding i task hbefore hholds
      exact ⟨p, List.mem_append_left _ hp, heq⟩
    · exact ⟨_, List.mem_append_right _ (List.mem_singleton_self _), h.length_eq⟩
  nodup := by
    rw [List.map_append, List.map_singleton, List.nodup_append]
    refine ⟨h.nodup, List.nodup_singleton _, fun i hi j hj => ?_⟩
    obtain ⟨p, hp, rfl⟩ := List.mem_map.mp hi
    rw [List.mem_singleton] at hj
    rw [hj, h.length_eq]
    exact (h.job_lt hp).ne
  width_pos := h.width_pos

/-- One job is taken up. -/
theorem Follows.take (host : Host σ) (h : Follows r t) {job : Job (Except ε α)}
    {waiting : List (Job (Except ε α))} (hnext : t.waiting = job :: waiting) :
    ∃ t', Reaches host t t' ∧ t'.waiting = waiting ∧ Follows (r.take host job) t' := by
  obtain ⟨u, hturns, hwaiting, hfollows, hpermits⟩ := h.room host
  rw [Run.take]
  generalize (if r.pool.hasRoom then r else r.step) = r' at hfollows
  obtain ⟨n, hn⟩ : ∃ n, u.permits = n + 1 := ⟨u.permits - 1, by omega⟩
  have hnext' : u.waiting = job :: waiting := hwaiting.trans hnext
  have hadmit : Reaches host t { u with permits := n, admitted := true } :=
    hturns.trans (Turn.acquire hn hfollows.idle (by simp [hnext'])).reaches
  have hfailed : u.failed = r'.pool.failed := congrArg State.failed hfollows.pool
  dsimp only
  split
  · next hskip =>
    have hturn : Turn host { u with permits := n, admitted := true } _ _ :=
      .skip rfl hnext' (hfailed.trans hskip)
    refine ⟨_, hadmit.trans hturn.reaches, rfl, ?_⟩
    have hskipped := hfollows.skip (hfailed.trans hskip) waiting
    simp only [Turns.append, ← hn] at hskipped ⊢
    exact hskipped
  · next hstart =>
    have hdown : u.failed = false := by simpa [hfailed] using hstart
    have hturn : Turn host { u with permits := n, admitted := true } _ _ :=
      .start rfl hnext' hdown
    have hstarted : Reaches host t
        { u.append (.running job) waiting with permits := n } := hadmit.trans hturn.reaches
    obtain ⟨rest, hrest, hrunning⟩ := reaches_run host (t :=
      { u.append (.running job) waiting with permits := n }) (u.getElem?_append_length _ waiting)
    refine ⟨_, hstarted.trans hrunning, rfl, ?_⟩
    have hhost : u.host = r'.host := hfollows.host
    have hplace : (u.tasks ++ [Task.running job]).set u.tasks.length (.running rest) =
        u.tasks ++ [.running rest] := congrArg Turns.tasks (u.put_append _ (.running rest) waiting)
    have hrunner := hfollows.start hdown rest _ hrest waiting
      (r'.clock + (job.run host r'.host).1.lasted.nanos)
      (r'.moments ++ [.started r'.pool.slots.length]) (job.run host r'.host).2 hn
    simp only [Turns.put, Turns.append, hplace, hhost] at hrunner ⊢
    exact hrunner

theorem Follows.takeAll (host : Host σ) (jobs : List (Job (Except ε α))) (h : Follows r t)
    (hwaiting : t.waiting = jobs) :
    ∃ t', Reaches host t t' ∧ t'.waiting = [] ∧ Follows (jobs.foldl (Run.take host) r) t' := by
  induction jobs generalizing r t with
  | nil => exact ⟨t, .refl t, hwaiting, h⟩
  | cons job jobs ih =>
    obtain ⟨u, hturns, hwaiting', hfollows⟩ := h.take host hwaiting
    obtain ⟨t', hturns', hrest⟩ := ih hfollows hwaiting'
    exact ⟨t', hturns.trans hturns', hrest⟩

theorem Follows.drain (host : Host σ) {n : Nat} (h : Follows r t) (hn : r.pending.length = n) :
    ∃ t', Reaches host t t' ∧ t'.waiting = t.waiting ∧ Follows (r.drain n) t' ∧
      (r.drain n).pending = [] := by
  induction n generalizing r t with
  | zero => exact ⟨t, .refl t, rfl, h, List.length_eq_zero_iff.mp hn⟩
  | succ n ih =>
    have hpending : r.pending ≠ [] := by
      intro hnil
      simp [hnil] at hn
    obtain ⟨u, hturns, hfollows, hwaiting, hlength, -⟩ := h.step host hpending
    obtain ⟨t', hturns', hwaiting', hrest⟩ := ih hfollows (by omega)
    exact ⟨t', hturns.trans hturns', hwaiting'.trans hwaiting, hrest⟩

/-- Where no job has a permit, the outcomes are those that the pool tells. -/
theorem Turns.outcomes_pool (h : ∀ task ∈ t.tasks, task.holds = false) :
    t.pool.outcomes = t.outcomes := by
  rw [State.outcomes, pool, List.map_map, outcomes]
  refine List.map_congr_left fun task hmem => ?_
  have hholds := h task hmem
  cases task with
  | running rest => cases hholds
  | leaving armed outcome => cases hholds
  | ended outcome => rfl
  | skipped => rfl

/-- The run by due times is a run. -/
theorem runs_run (host : Host σ) (width : Nat) (jobs : List (Job (Except ε α))) (s : σ) :
    Runs host width jobs s (run host width jobs s).pool.outcomes (run host width jobs s).host := by
  have hstart : Follows (⟨.idle width, 0, [], [], s⟩ : Run σ ε α) (.start width jobs s) := by
    refine ⟨rfl, rfl, rfl, rfl, fun _ h => (nomatch h), fun _ _ h => (nomatch h), List.nodup_nil,
      ?_⟩
    simp only [State.idle]
    omega
  obtain ⟨u, hturns, hwaiting, hfollows⟩ := hstart.takeAll host jobs rfl
  obtain ⟨t, hturns', hwaiting', hfollows', hnone⟩ := hfollows.drain host rfl
  have hholds : ∀ task ∈ t.tasks, task.holds = false := by
    intro task hmem
    by_contra hholds
    rw [Bool.not_eq_false] at hholds
    obtain ⟨i, hi⟩ := List.mem_iff_getElem?.mp hmem
    obtain ⟨p, hp, -⟩ := hfollows'.holding i task hi hholds
    rw [hnone] at hp
    cases hp
  refine ⟨t, hturns.trans hturns', ⟨hwaiting'.trans hwaiting, hholds⟩, ?_, hfollows'.host⟩
  rw [← Turns.outcomes_pool hholds, hfollows'.pool]
  rfl

end SqlBackup.Pool

namespace SqlBackup

variable {σ α β : Type}

namespace Pool

theorem Outcome.fault?_eq_none_iff {blame : String → Fault → Fault} {name : String}
    {outcome : Outcome Fault α} : outcome.fault? blame name = none ↔ outcome.isFailure = false := by
  cases outcome <;> simp [Outcome.fault?, Outcome.isFailure]

theorem eq_map_value {outcomes : List (Outcome Fault α)}
    (h : ∀ outcome ∈ outcomes, ∃ a, outcome = .value a) :
    outcomes = (outcomes.filterMap Outcome.value?).map .value := by
  induction outcomes with
  | nil => rfl
  | cons outcome outcomes ih =>
    rw [List.forall_mem_cons] at h
    obtain ⟨⟨a, rfl⟩, hrest⟩ := h
    simp only [List.filterMap_cons, Outcome.value?, List.map_cons]
    rw [← ih hrest]

/-- Gathered outcomes are all values, unless a job was skipped although none failed. -/
theorem gather_eq_ok {blame : String → Fault → Fault} {names : List String}
    {outcomes : List (Outcome Fault α)} {values : List α}
    (h : gather blame names outcomes = .ok values) (hlength : outcomes.length = names.length)
    (hblamed : .skipped ∈ outcomes → ∃ outcome ∈ outcomes, outcome.isFailure = true) :
    outcomes = values.map .value := by
  rw [gather] at h
  split at h
  · cases h
  · next hnone =>
    cases h
    have hsound : ∀ outcome ∈ outcomes, outcome.isFailure = false := by
      intro outcome hmem
      obtain ⟨i, hi⟩ := List.mem_iff_getElem?.mp hmem
      have hlt : i < names.length := hlength ▸ (List.getElem?_eq_some_iff.mp hi).1
      have hpair : (names[i], outcome) ∈ names.zip outcomes := by
        rw [List.mem_iff_getElem?]
        exact ⟨i, List.getElem?_zip_eq_some.mpr ⟨List.getElem?_eq_getElem hlt, hi⟩⟩
      exact Outcome.fault?_eq_none_iff.mp (List.findSome?_eq_none_iff.mp hnone _ hpair)
    have hvalue : ∀ outcome ∈ outcomes, ∃ a, outcome = .value a := by
      intro outcome hmem
      have hfailure := hsound outcome hmem
      cases outcome with
      | value a => exact ⟨a, rfl⟩
      | failed fault => cases hfailure
      | panicked text => cases hfailure
      | skipped =>
        obtain ⟨other, hother, hfails⟩ := hblamed hmem
        rw [hsound other hother] at hfails
        cases hfails
    exact eq_map_value hvalue

end Pool

/-- A plan is made on a host and carried out, with its jobs taking turns in some order. -/
inductive Plan.CarriesOut (host : Host σ) (planning : Work (Plan β α)) (s : σ) :
    Except String (Except Fault α) → σ → Prop
  | broken {text : String} (h : (planning.run.run host s).1.result = .error text) :
      CarriesOut host planning s (.error text) (planning.run.run host s).2
  | failed {fault : Fault} (h : (planning.run.run host s).1.result = .ok (.error fault)) :
      CarriesOut host planning s (.ok (.error fault)) (planning.run.run host s).2
  | done {plan : Plan β α} {outcomes : List (Pool.Outcome Fault β)} {s' : σ}
      (h : (planning.run.run host s).1.result = .ok (.ok plan))
      (hruns : Pool.Runs host plan.width (plan.jobs.map ExceptT.run)
        (planning.run.run host s).2 outcomes s') :
      CarriesOut host planning s ((plan.conclude outcomes).run.run host s').1.result
        ((plan.conclude outcomes).run.run host s').2

/-- A plan that is not made is not carried out. -/
theorem Plan.CarriesOut.of_failed {planning : Work (Plan β α)} {fault : Fault} {s s' : σ}
    {ended : Except String (Except Fault α)} (h : CarriesOut host planning s ended s')
    (hfailed : (planning.run.run host s).1.result = .ok (.error fault)) :
    ended = .ok (.error fault) ∧ s' = (planning.run.run host s).2 := by
  cases h with
  | broken hbroken => cases hfailed.symm.trans hbroken
  | failed hfailed' =>
    cases hfailed.symm.trans hfailed'
    exact ⟨rfl, rfl⟩
  | done hdone => cases hfailed.symm.trans hdone

/-- A plan that does not break down is not made, or its jobs run and it is concluded. -/
theorem Plan.CarriesOut.of_ok {planning : Work (Plan β α)} {result : Except Fault α} {s s' : σ}
    (h : CarriesOut host planning s (.ok result) s') :
    (∃ fault, result = .error fault ∧
      (planning.run.run host s).1.result = .ok (.error fault) ∧
      s' = (planning.run.run host s).2) ∨
    ∃ (plan : Plan β α) (outcomes : List (Pool.Outcome Fault β)) (t : σ),
      (planning.run.run host s).1.result = .ok (.ok plan) ∧
      Pool.Runs host plan.width (plan.jobs.map ExceptT.run) (planning.run.run host s).2 outcomes t ∧
      ((plan.conclude outcomes).run.run host t).1.result = .ok result ∧
      s' = ((plan.conclude outcomes).run.run host t).2 := by
  generalize hresult : (Except.ok result : Except String (Except Fault α)) = ended at h
  cases h with
  | broken => cases hresult
  | failed hfailed =>
    cases hresult
    exact .inl ⟨_, rfl, hfailed, rfl⟩
  | done hdone hruns => exact .inr ⟨_, _, _, hdone, hruns, rfl, rfl⟩

/-- A plan that comes to a value is made, its jobs run, and it is concluded. -/
theorem Plan.CarriesOut.of_value {planning : Work (Plan β α)} {a : α} {s s' : σ}
    (h : CarriesOut host planning s (.ok (.ok a)) s') :
    ∃ (plan : Plan β α) (outcomes : List (Pool.Outcome Fault β)) (t : σ),
      (planning.run.run host s).1.result = .ok (.ok plan) ∧
      Pool.Runs host plan.width (plan.jobs.map ExceptT.run) (planning.run.run host s).2 outcomes t ∧
      ((plan.conclude outcomes).run.run host t).1.result = .ok (.ok a) := by
  obtain ⟨_, hfailed, -, -⟩ | ⟨plan, outcomes, t, hdone, hruns, hconclude, -⟩ := h.of_ok
  · cases hfailed
  · exact ⟨plan, outcomes, t, hdone, hruns, hconclude⟩

/-- What carries a plan out by due times is one of the ways to do so. -/
theorem Plan.carriesOut_carryOut (host : Host σ) (planning : Work (Plan β α)) (s : σ) :
    CarriesOut host planning s (carryOut host planning s).1 (carryOut host planning s).2 := by
  rw [carryOut]
  dsimp only
  split
  · next h => exact .broken h
  · next h => exact .failed h
  · next plan h => exact .done h (Pool.runs_run host plan.width _ _)

end SqlBackup
