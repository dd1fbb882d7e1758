import Mathlib
import SqlBackup.Proofs.Job.Moments
import SqlBackup.Proofs.Pool.Schedule
import SqlBackup.Proofs.Pool.Safety

/-!
# Plans at every moment

A plan that is carried out can be cut off while it is made, while its jobs take turns, or while it is
concluded. What every request of a job keeps holds between any two turns, whichever job makes them.
-/
namespace SqlBackup

variable {σ ε β α : Type} {host : Host σ}

namespace Pool

/-- What a job asked in a turn. -/
def Move.exchange? : Move ε α → Option Asked
  | ask _ asked => some asked
  | _ => none

/-- The call on a file that a job waits for. -/
def Task.call? : Task ε α → Option Files.Call
  | running rest => rest.call?
  | _ => none

/-- The jobs that wait and what is left of those that run make only these requests. -/
structure Turns.Asks (allowed : Request → Prop) (t : Turns σ ε α) : Prop where
  waiting : ∀ job ∈ t.waiting, job.Asks allowed fun _ => True
  running : ∀ rest, Task.running rest ∈ t.tasks → rest.Asks allowed fun _ => True

variable {allowed : Request → Prop} {t t' : Turns σ ε α} {move : Move ε α}

theorem Turns.Asks.of_call? (h : t.Asks allowed) {call : Files.Call}
    (hcall : call ∈ t.tasks.filterMap Task.call?) : allowed (.file call) := by
  obtain ⟨task, htask, heq⟩ := List.mem_filterMap.mp hcall
  cases task with
  | running rest => exact (h.running rest htask).of_call? heq
  | leaving armed outcome => cases heq
  | ended outcome => cases heq
  | skipped => cases heq

/-- A job that comes to another place makes no new requests there. -/
theorem Turns.Asks.set (h : t.Asks allowed) {i : Nat} {task : Task ε α}
    (htask : ∀ rest, task = .running rest → rest.Asks allowed fun _ => True)
    (hwaiting : t'.waiting = t.waiting) (htasks : t'.tasks = t.tasks.set i task) :
    t'.Asks allowed := by
  refine ⟨hwaiting ▸ h.waiting, fun rest hrest => ?_⟩
  rw [htasks] at hrest
  rcases List.mem_or_eq_of_mem_set hrest with hold | hnew
  · exact h.running rest hold
  · exact htask rest hnew.symm

theorem Turns.Asks.append (h : t.Asks allowed) {job : Job (Except ε α)} {task : Task ε α}
    {waiting : List (Job (Except ε α))} (hnext : t.waiting = job :: waiting)
    (htask : ∀ rest, task = .running rest → rest = job)
    (hwaiting : t'.waiting = waiting) (htasks : t'.tasks = t.tasks ++ [task]) :
    t'.Asks allowed := by
  have hjobs := h.waiting
  rw [hnext, List.forall_mem_cons] at hjobs
  refine ⟨hwaiting ▸ hjobs.2, fun rest hrest => ?_⟩
  rw [htasks, List.mem_append, List.mem_singleton] at hrest
  rcases hrest with hold | hnew
  · exact h.running rest hold
  · exact htask rest hnew.symm ▸ hjobs.1

theorem Turns.Asks.turn (h : t.Asks allowed) (hturn : Turn host t move t') : t'.Asks allowed := by
  cases hturn with
  | acquire hfree hidle hnext => exact ⟨h.waiting, h.running⟩
  | start hadmitted hnext hflag =>
    exact h.append hnext (fun rest heq => (Task.running.inj heq).symm) rfl rfl
  | skip hadmitted hnext hflag => exact h.append hnext (fun _ heq => by cases heq) rfl rfl
  | ask hrun =>
    have hrest := h.running _ (List.mem_of_getElem? hrun)
    exact h.set (fun rest heq => Task.running.inj heq ▸ hrest.resume _) rfl rfl
  | finish hrun hend => exact h.set (fun _ heq => by cases heq) rfl rfl
  | raise hleave => exact h.set (fun _ heq => by cases heq) rfl rfl
  | release hleave => exact h.set (fun _ heq => by cases heq) rfl rfl

/-- What is asked in a turn is one of the requests of the jobs. -/
theorem Turns.Asks.exchange (h : t.Asks allowed) (hturn : Turn host t move t') {asked : Asked}
    (hasked : move.exchange? = some asked) : allowed asked.request := by
  cases hturn with
  | ask hrun =>
    obtain rfl := Option.some.inj hasked
    exact (h.running _ (List.mem_of_getElem? hrun)).1
  | _ => cases hasked

theorem Turns.asks_start {jobs : List (Job (Except ε α))} {width : Nat} {s : σ}
    (hjobs : ∀ job ∈ jobs, job.Asks allowed fun _ => True) : (start width jobs s).Asks allowed :=
  ⟨hjobs, fun _ hrest => nomatch hrest⟩

/-- What every request of the jobs keeps, holds behind any turns. -/
theorem History.asks {jobs : List (Job (Except ε α))} {width : Nat} {s : σ}
    {moves : List (Move ε α)} (hjobs : ∀ job ∈ jobs, job.Asks allowed fun _ => True)
    (kept : List Asked → σ → Prop)
    (hkept : ∀ talk request s, allowed request → kept talk s →
      kept (talk ++ [⟨request, (host.answer request s).1.reply⟩]) (host.answer request s).2)
    {before : List Asked} (hs : kept before s)
    (h : History host (.start width jobs s) moves t) :
    kept (before ++ moves.filterMap Move.exchange?) t.host ∧ t.Asks allowed := by
  induction h with
  | nothing => exact ⟨(List.append_nil before).symm ▸ hs, Turns.asks_start hjobs⟩
  | @turn moves t move t' _ hturn ih =>
    obtain ⟨hkept', hasks⟩ := ih
    refine ⟨?_, hasks.turn hturn⟩
    rw [List.filterMap_append, ← List.append_assoc]
    cases hturn with
    | ask hrun => exact hkept _ _ _ (hasks.exchange (Turn.ask hrun : Turn host t _ _) rfl) hkept'
    | _ => exact (List.append_nil (before ++ _)).symm ▸ hkept'

/-! ### Each job by itself -/

section Each

variable {jobs : List (Job (Except ε α))} {job : Job (Except ε α)} {width : Nat} {s : σ}
  {moves : List (Move ε α)} {wanted : Except ε α → Prop} {i : Nat}

/-- What is asked in any turns has led one of the jobs on. -/
theorem History.exists_leads (h : History host (.start width jobs s) moves t) {asked : Asked}
    (hasked : asked ∈ askedBy i moves) :
    ∃ job rest, jobs[i]? = some job ∧ job.Leads (askedBy i moves) rest := by
  have hsound := h.sound
  by_cases hquiet : ∀ task, t.tasks[i]? = some task → task.isStarted = false
  · rw [hsound.accounts.quiet i hquiet] at hasked
    cases hasked
  · push Not at hquiet
    obtain ⟨task, htask, hstarted⟩ := hquiet
    have hi := (List.getElem?_eq_some_iff.mp htask).1.trans_le hsound.ordered.length_le
    have hjob := List.getElem?_eq_getElem hi
    obtain ⟨rest, hleads, -⟩ := hsound.accounts.came i _ task hjob htask (by simpa using hstarted)
    exact ⟨_, rest, hjob, hleads⟩

/-- A value that a job has come to is as wanted. -/
theorem Finished.value {started : Nat} {outcomes : List (Outcome ε α)} {a : α}
    (h : Finished jobs width moves started outcomes) (hjob : jobs[i]? = some job)
    (hasks : job.Asks allowed wanted) (ha : outcomes[i]? = some (.value a)) : wanted (.ok a) := by
  have hi := (List.getElem?_eq_some_iff.mp hjob).1
  rcases Nat.lt_or_ge i started with hlt | hge
  · obtain ⟨rest, result, hleads, hend, houtcome, -⟩ := h.came i job hlt hjob
    have hvalue := Option.some.inj (ha.symm.trans houtcome)
    have hrest := (hasks.leads hleads).2
    rcases result with text | fault | b
    · cases hvalue
    · cases hvalue
    · cases hvalue
      cases rest with
      | done value =>
        cases hend
        exact hrest
      | panic text => cases hend
      | ask request next => cases hend
  · rw [h.skipped i hge hi] at ha
    cases ha

end Each

/-- If jobs are made of keys and what each yields tells of its key, then so do all that is gathered
of any run of them, in the order of the keys. -/
theorem Runs.map_values {κ δ : Type} {keys : List κ} {work : Nat → κ → Work α} {f : α → δ}
    {g : κ → δ} {blame : String → Fault → Fault} {names : List String} {width : Nat} {s s' : σ}
    {outcomes : List (Outcome Fault α)} {values : List α}
    (hwork : ∀ i key, (work i key).Asks (fun _ => True) fun a => f a = g key)
    (hnames : names.length = keys.length)
    (h : Runs host width ((keys.mapIdx work).map ExceptT.run) s outcomes s')
    (hgather : gather blame names outcomes = .ok values) : values.map f = keys.map g := by
  obtain ⟨moves, started, hfinished⟩ := h.finished
  have hlength : outcomes.length = keys.length := by simp [hfinished.length_eq]
  have hvalues := gather_eq_ok hgather (hlength.trans hnames.symm) hfinished.exists_failure
  rw [hvalues, List.length_map] at hlength
  refine List.ext_getElem? fun i => ?_
  rw [List.getElem?_map, List.getElem?_map]
  cases ha : values[i]? with
  | none =>
    rw [List.getElem?_eq_none_iff, hlength, ← List.getElem?_eq_none_iff] at ha
    rw [ha, Option.map_none, Option.map_none]
  | some a =>
    have hi : i < keys.length := hlength ▸ (List.getElem?_eq_some_iff.mp ha).1
    have hkey := List.getElem?_eq_getElem hi
    have hjob : ((keys.mapIdx work).map ExceptT.run)[i]? = some (work i keys[i]).run := by
      rw [List.getElem?_map, List.getElem?_mapIdx, hkey, Option.map_some, Option.map_some]
    have hsame := hfinished.value hjob (hwork i keys[i])
      (by rw [hvalues, List.getElem?_map, ha, Option.map_some])
    rw [hkey, Option.map_some, Option.map_some, hsame a rfl]

end Pool

/-! ### Plans -/

/-- A plan is made on a host and carried out up to some moment. By then this has been asked, these
calls on files are waited for, and the plan may have come to a value. -/
inductive Plan.Reaches (host : Host σ) (planning : Work (Plan β α)) (s : σ) :
    List Asked → List Files.Call → Option α → σ → Prop
  | planning {talk : List Asked} {rest : Job (Except Fault (Plan β α))} {s' : σ}
      (hplan : planning.run.Advances host s talk rest s') :
      Reaches host planning s talk rest.call?.toList none s'
  | running {talk : List Asked} {plan : Plan β α} {s₁ : σ}
      {moves : List (Pool.Move Fault β)} {t : Pool.Turns σ Fault β}
      (hplan : planning.run.Advances host s talk (.done (.ok plan)) s₁)
      (hturns : Pool.History host (.start plan.width (plan.jobs.map ExceptT.run) s₁) moves t) :
      Reaches host planning s (talk ++ moves.filterMap Pool.Move.exchange?)
        (t.tasks.filterMap Pool.Task.call?) none t.host
  | concluding {talk later : List Asked} {plan : Plan β α} {s₁ s' : σ}
      {moves : List (Pool.Move Fault β)} {t : Pool.Turns σ Fault β}
      {rest : Job (Except Fault α)}
      (hplan : planning.run.Advances host s talk (.done (.ok plan)) s₁)
      (hturns : Pool.History host (.start plan.width (plan.jobs.map ExceptT.run) s₁) moves t)
      (hover : t.IsOver)
      (hconclude : (plan.conclude t.outcomes).run.Advances host t.host later rest s') :
      Reaches host planning s (talk ++ moves.filterMap Pool.Move.exchange? ++ later)
        rest.call?.toList rest.value? s'

/-- What every request keeps holds at every moment of a plan. -/
theorem Plan.Reaches.keeps {planning : Work (Plan β α)} {s s' : σ} {talk : List Asked}
    {calls : List Files.Call} {value? : Option α} (kept : List Asked → σ → Prop)
    (hkept : ∀ talk request s, kept talk s →
      kept (talk ++ [⟨request, (host.answer request s).1.reply⟩]) (host.answer request s).2)
    (hs : kept [] s) (h : Reaches host planning s talk calls value? s') : kept talk s' := by
  have hplanned {rest : Job (Except Fault (Plan β α))} {talk : List Asked} {s' : σ}
      (hplan : planning.run.Advances host s talk rest s') : kept talk s' :=
    ((Job.asks_true planning.run).advances kept (fun talk request s _ => hkept talk request s) hs
      hplan).1
  have hran {plan : Plan β α} {talk : List Asked} {s₁ : σ} {moves : List (Pool.Move Fault β)}
      {t : Pool.Turns σ Fault β} (hs₁ : kept talk s₁) (hturns : Pool.History host
        (.start plan.width (plan.jobs.map ExceptT.run) s₁) moves t) :
      kept (talk ++ moves.filterMap Pool.Move.exchange?) t.host :=
    (hturns.asks (fun job _ => Job.asks_true job) kept
      (fun talk request s _ => hkept talk request s) hs₁).1
  cases h with
  | planning hplan => exact hplanned hplan
  | running hplan hturns => exact hran (hplanned hplan) hturns
  | concluding hplan hturns hover hconclude =>
    exact ((Job.asks_true _).advances kept (fun talk request s _ => hkept talk request s)
      (hran (hplanned hplan) hturns) hconclude).1

/-- If a plan is not made, no moment is behind its making. -/
theorem Plan.Reaches.of_failed {planning : Work (Plan β α)} {fault : Fault} {s s' : σ}
    {talk : List Asked} {calls : List Files.Call} {value? : Option α}
    (h : Reaches host planning s talk calls value? s')
    (hfailed : (planning.run.run host s).1.result = .ok (.error fault)) :
    value? = none ∧ ∃ rest, planning.run.Advances host s talk rest s' ∧ calls = rest.call?.toList := by
  cases h with
  | @planning talk rest s' hplan => exact ⟨rfl, rest, hplan, rfl⟩
  | running hplan => cases hfailed.symm.trans hplan.run.1
  | concluding hplan => cases hfailed.symm.trans hplan.run.1

/-- The end of a plan that does not break down is one of its moments. -/
theorem Plan.CarriesOut.reaches {planning : Work (Plan β α)} {s s' : σ}
    {result : Except Fault α} (h : CarriesOut host planning s (.ok result) s') :
    ∃ talk, Reaches host planning s talk [] result.toOption s' := by
  obtain ⟨fault, rfl, hfailed, rfl⟩ | ⟨plan, outcomes, s₁, hdone, hruns, hconclude, rfl⟩ := h.of_ok
  · obtain ⟨talk, htalk⟩ := Job.exists_advances hfailed
    exact ⟨talk, .planning htalk⟩
  · obtain ⟨talk, htalk⟩ := Job.exists_advances hdone
    obtain ⟨t, ⟨moves, hmoves⟩, hover, rfl, rfl⟩ := hruns
    obtain ⟨later, hlater⟩ := Job.exists_advances hconclude
    have hreaches := Reaches.concluding htalk hmoves hover hlater
    cases result with
    | error fault => exact ⟨_, hreaches⟩
    | ok a => exact ⟨_, hreaches⟩

end SqlBackup
