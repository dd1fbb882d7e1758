import Mathlib
import SqlBackup.Proofs.Job.Shared
import SqlBackup.Proofs.Pool.Safety

/-!
# Jobs of a pool that share a host

What the jobs of a pool come to in whatever order of turns is told by what each of them does on its
own share of the host, as long as none may change what is another's.
-/
namespace SqlBackup.Pool

variable {σ γ ε α : Type}

/-- What is left of a job works on its share, or it has come to a value that is as wanted. -/
def Task.Meets (host : Host σ) (share : Share σ γ) (wanted : Except ε α → γ → Prop) (own : γ) :
    Task ε α → Prop
  | running rest => rest.Works host share own wanted
  | leaving _ (.value a) => wanted (.ok a) own
  | ended (.value a) => wanted (.ok a) own
  | _ => True

/-- Shares of the jobs of a pool. -/
structure Shares (σ γ : Type) where
  kept : σ → Prop
  allowed : Nat → σ → σ → Prop
  own : Nat → σ → γ

namespace Shares

/-- The share of a job. -/
def share (shares : Shares σ γ) (i : Nat) : Share σ γ :=
  ⟨shares.kept, shares.allowed i, shares.own i⟩

/-- What one of the jobs may change is no part of what another has for its own. -/
def Apart (shares : Shares σ γ) (count : Nat) : Prop :=
  ∀ i j s s', i < count → j < count → i ≠ j → shares.kept s → shares.kept s' →
    shares.allowed i s s' → shares.own j s' = shares.own j s

/-- Each of the jobs works on its share, whatever that holds when the job is started. -/
def Respected (host : Host σ) (jobs : List (Job (Except ε α))) (shares : Shares σ γ)
    (wanted : Nat → Except ε α → γ → Prop) : Prop :=
  ∀ (i : Nat) (job : Job (Except ε α)), jobs[i]? = some job → ∀ own,
    job.Works host (shares.share i) own (wanted i)

end Shares

/-- What holds of the host and of each job behind any turns. -/
structure Turns.Meets (host : Host σ) (shares : Shares σ γ)
    (wanted : Nat → Except ε α → γ → Prop) (t : Turns σ ε α) : Prop where
  kept : shares.kept t.host
  tasks : ∀ (i : Nat) (task : Task ε α), t.tasks[i]? = some task →
    task.Meets host (shares.share i) (wanted i) (shares.own i t.host)

variable {host : Host σ} {jobs : List (Job (Except ε α))} {shares : Shares σ γ}
  {wanted : Nat → Except ε α → γ → Prop} {t t' : Turns σ ε α} {width : Nat}
  {moves : List (Move ε α)} {move : Move ε α}

/-- A turn that leaves the host alone brings one job to another place. -/
theorem Turns.Meets.set (h : t.Meets host shares wanted) {i : Nat} {old task : Task ε α}
    (hold : t.tasks[i]? = some old) (htasks : t'.tasks = t.tasks.set i task)
    (hhost : t'.host = t.host)
    (htask : old.Meets host (shares.share i) (wanted i) (shares.own i t.host) →
      task.Meets host (shares.share i) (wanted i) (shares.own i t.host)) :
    t'.Meets host shares wanted := by
  refine ⟨hhost ▸ h.kept, fun j task' hj => ?_⟩
  rw [hhost]
  rw [htasks] at hj
  rcases t.getElem?_put_eq hold hj with ⟨rfl, rfl⟩ | ⟨-, hbefore⟩
  · exact htask (h.tasks j old hold)
  · exact h.tasks j task' hbefore

/-- A job that goes on leaves the shares of the others alone. -/
theorem Turns.Meets.ask (hapart : shares.Apart jobs.length) (hordered : t.Ordered jobs moves)
    (h : t.Meets host shares wanted) {i : Nat} {request : Request}
    {next : request.Reply → Job (Except ε α)}
    (hrun : t.tasks[i]? = some (.running (.ask request next))) :
    Turns.Meets host shares wanted
      { t.put i (.running (.resume next (host.answer request t.host).1.reply)) with
        host := (host.answer request t.host).2 } := by
  obtain ⟨hlt, -⟩ := List.getElem?_eq_some_iff.mp hrun
  obtain ⟨hkept, hallowed, hreply⟩ := h.tasks i _ hrun t.host h.kept rfl
  refine ⟨hkept, fun j task htask => ?_⟩
  rcases t.getElem?_put_eq hrun htask with ⟨rfl, rfl⟩ | ⟨hne, hbefore⟩
  · cases hr : (host.answer request t.host).1.reply with
    | error text => trivial
    | ok reply => exact hreply reply hr
  · obtain ⟨hlt', -⟩ := List.getElem?_eq_some_iff.mp hbefore
    have hown := hapart i j _ _ (hlt.trans_le hordered.length_le)
      (hlt'.trans_le hordered.length_le) hne.symm h.kept hkept hallowed
    have htask' := h.tasks j task hbefore
    rwa [← hown] at htask'

theorem Turns.Meets.turn (hjobs : shares.Respected host jobs wanted)
    (hapart : shares.Apart jobs.length) (hordered : t.Ordered jobs moves)
    (h : t.Meets host shares wanted) (hturn : Turn host t move t') :
    t'.Meets host shares wanted := by
  cases hturn with
  | acquire hfree hidle hnext => exact ⟨h.kept, h.tasks⟩
  | @start job waiting hadmitted hnext hflag =>
    refine ⟨h.kept, fun i task htask => ?_⟩
    rcases t.getElem?_append_eq waiting htask with hbefore | ⟨rfl, rfl⟩
    · exact h.tasks i task hbefore
    · exact hjobs _ job (hordered.drop hnext).1 _
  | @skip job waiting hadmitted hnext hflag =>
    refine ⟨h.kept, fun i task htask => ?_⟩
    rcases t.getElem?_append_eq waiting htask with hbefore | ⟨-, rfl⟩
    · exact h.tasks i task hbefore
    · trivial
  | ask hrun => exact h.ask hapart hordered hrun
  | @finish i job result hrun hend =>
    refine h.set hrun rfl rfl fun htask => ?_
    cases job with
    | done value =>
      cases hend
      cases value with
      | error fault => trivial
      | ok a => exact htask
    | panic text =>
      cases hend
      trivial
    | ask request next => cases hend
  | @raise i outcome hleave =>
    refine h.set hleave rfl rfl fun htask => ?_
    cases outcome <;> exact htask
  | @release i outcome hleave =>
    refine h.set hleave rfl rfl fun htask => ?_
    cases outcome <;> exact htask

/-- Each job that came to a value has it as wanted, whatever the order of the turns was. -/
theorem History.meets {s : σ} (hjobs : shares.Respected host jobs wanted)
    (hapart : shares.Apart jobs.length) (hs : shares.kept s)
    (h : History host (.start width jobs s) moves t) : t.Meets host shares wanted := by
  induction h with
  | nothing => exact ⟨hs, fun _ _ htask => nomatch htask⟩
  | turn h hturn ih => exact ih.turn hjobs hapart h.sound.ordered hturn

/-- What is known of the outcomes of all jobs, and of the host then. -/
structure Outcomes (jobs : List (Job (Except ε α))) (shares : Shares σ γ)
    (wanted : Nat → Except ε α → γ → Prop) (outcomes : List (Outcome ε α)) (s : σ) : Prop where
  kept : shares.kept s
  length_eq : outcomes.length = jobs.length
  value : ∀ (i : Nat) (a : α), outcomes[i]? = some (.value a) →
    wanted i (.ok a) (shares.own i s)
  blamed : .skipped ∈ outcomes → ∃ outcome ∈ outcomes, outcome.isFailure = true

/-- Every order of turns leads to outcomes that are as wanted, in the order of the jobs. -/
theorem Runs.outcomes {s s' : σ} {outcomes : List (Outcome ε α)}
    (hjobs : shares.Respected host jobs wanted) (hapart : shares.Apart jobs.length)
    (hs : shares.kept s) (h : Runs host width jobs s outcomes s') :
    Outcomes jobs shares wanted outcomes s' := by
  obtain ⟨t, ⟨moves, hmoves⟩, hover, rfl, rfl⟩ := h
  have hmeets := hmoves.meets hjobs hapart hs
  have hfinished := hmoves.finished hover
  refine ⟨hmeets.kept, hfinished.length_eq, fun i a ha => ?_, hfinished.exists_failure⟩
  have hi := (List.getElem?_eq_some_iff.mp ha).1
  rw [Turns.outcomes, List.length_map] at hi
  have htask := List.getElem?_eq_getElem hi
  obtain ⟨outcome, houtcome, hresult⟩ := hover.outcome_eq htask
  obtain rfl : .value a = outcome := Option.some.inj (ha.symm.trans hresult)
  have hwanted := hmeets.tasks i _ htask
  have hholds := hover.2 _ (List.getElem_mem hi)
  generalize t.tasks[i] = task at houtcome hwanted hholds
  cases task with
  | running rest => cases hholds
  | leaving armed other => cases hholds
  | skipped => cases houtcome
  | ended other =>
    cases houtcome
    exact hwanted

end SqlBackup.Pool
