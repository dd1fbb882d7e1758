import Mathlib
import SqlBackup.Pool

/-!
# Jobs that take turns

The jobs of a pool run side by side, and beside them the loop that starts them. A turn is the least
that one of them does without the others: the loop takes a permit, or starts a job or skips it, a
job makes a single request or comes to its end. A job that failed raises the flag of the pool before
it gives its permit back, and these are two turns. Any order of turns is possible.
-/
namespace SqlBackup

/-- What is left of a job when a request is answered. -/
def Job.resume {ρ α : Type} (next : ρ → Job α) : Except String ρ → Job α
  | .ok reply => next reply
  | .error text => .panic text

/-- How a job that makes no further request ends. -/
def Job.result? {α : Type} : Job α → Option (Except String α)
  | .done a => some (.ok a)
  | .panic text => some (.error text)
  | .ask _ _ => none

/-- A request of a job and what it was answered, or the breakdown that it led to. -/
structure Asked where
  request : Request
  answer : Except String request.Reply

/-- A job makes these requests, is answered so, and this is left of it. -/
inductive Job.Leads {α : Type} (job : Job α) : List Asked → Job α → Prop
  | nothing : Leads job [] job
  | ask {talk request next} (h : Leads job talk (.ask request next))
      (answer : Except String request.Reply) :
      Leads job (talk ++ [⟨request, answer⟩]) (.resume next answer)

namespace Pool

variable {σ ε α : Type}

theorem Outcome.ofResult_ne_skipped (result : Except String (Except ε α)) :
    Outcome.ofResult result ≠ .skipped := by
  rcases result with _ | _ | _ <;> simp [Outcome.ofResult]

/-- A job that was taken up. -/
inductive Task (ε α : Type) where
  /-- This is left of it. -/
  | running (rest : Job (Except ε α))
  /-- It has come to its end and still has its permit. An armed one is to raise the flag first. -/
  | leaving (armed : Bool) (outcome : Outcome ε α)
  | ended (outcome : Outcome ε α)
  | skipped

namespace Task

/-- Whether it has a permit. -/
def holds : Task ε α → Bool
  | running _ => true
  | leaving _ _ => true
  | _ => false

def isStarted : Task ε α → Bool
  | skipped => false
  | _ => true

def outcome? : Task ε α → Option (Outcome ε α)
  | running _ => none
  | leaving _ outcome => some outcome
  | ended outcome => some outcome
  | skipped => some .skipped

/-- The outcome of a job that is not to raise the flag any more. -/
def settled? : Task ε α → Option (Outcome ε α)
  | leaving false outcome => some outcome
  | ended outcome => some outcome
  | _ => none

/-- Where a job is, as the pool tells it. -/
def slot : Task ε α → Slot ε α
  | ended outcome => .ended outcome
  | skipped => .ended .skipped
  | _ => .running

/-- A job is where the rest of it tells. -/
def At (rest : Job (Except ε α)) : Task ε α → Prop
  | running rest' => rest' = rest
  | leaving _ outcome => ∃ result, rest.result? = some result ∧ outcome = .ofResult result
  | ended outcome => ∃ result, rest.result? = some result ∧ outcome = .ofResult result
  | skipped => False

variable {rest : Job (Except ε α)} {task : Task ε α}

theorem At.isStarted (h : task.At rest) : task.isStarted = true := by
  cases task with
  | skipped => exact h.elim
  | _ => rfl

/-- A job that is where one with a value is has come to that value. -/
theorem At.eq_done {a : α} (h : task.At rest) (hdone : task.At (.done (.ok a))) :
    rest = .done (.ok a) := by
  have hresult {outcome : Outcome ε α}
      (h : ∃ result, rest.result? = some result ∧ outcome = .ofResult result)
      (hdone : ∃ result, (Job.done (.ok a) : Job (Except ε α)).result? = some result ∧
        outcome = .ofResult result) : rest = .done (.ok a) := by
    obtain ⟨_, ⟨⟩, rfl⟩ := hdone
    obtain ⟨result, hrest, hsame⟩ := h
    rcases result with text | fault | b
    · cases hsame
    · cases hsame
    · cases hsame
      rcases rest with value | text | ⟨request, next⟩
      · cases hrest
        rfl
      · cases hrest
      · cases hrest
  cases task with
  | running rest' =>
    obtain rfl : rest' = rest := h
    exact hdone
  | leaving armed outcome => exact hresult h hdone
  | ended outcome => exact hresult h hdone
  | skipped => exact h.elim

theorem at_done_of_outcome? {a : α} (h : task.outcome? = some (.value a)) :
    task.At (.done (.ok a)) := by
  cases task with
  | leaving armed outcome =>
    cases h
    exact ⟨.ok (.ok a), rfl, rfl⟩
  | ended outcome =>
    cases h
    exact ⟨.ok (.ok a), rfl, rfl⟩
  | _ => cases h

theorem At.result?_isSome {outcome : Outcome ε α} (h : task.At rest)
    (houtcome : task.outcome? = some outcome) : rest.result?.isSome = true := by
  cases task with
  | running rest' => cases houtcome
  | leaving armed outcome' =>
    obtain ⟨result, hresult, -⟩ := h
    rw [hresult]
    rfl
  | ended outcome' =>
    obtain ⟨result, hresult, -⟩ := h
    rw [hresult]
    rfl
  | skipped => exact h.elim

end Task

/-- A pool on a host with state `σ`, and the jobs that wait for it. -/
structure Turns (σ ε α : Type) where
  width : Nat
  /-- The permits that nobody has. -/
  permits : Nat
  /-- Whether the loop has a permit for the next job. -/
  admitted : Bool
  /-- The jobs taken up, in the order of their request. -/
  tasks : List (Task ε α)
  /-- The flag that a failure raises. -/
  failed : Bool
  waiting : List (Job (Except ε α))
  host : σ

namespace Turns

/-- Before the first turn. At least one job is always let run. -/
def start (width : Nat) (jobs : List (Job (Except ε α))) (s : σ) : Turns σ ε α :=
  ⟨max 1 width, max 1 width, false, [], false, jobs, s⟩

/-- Puts a job that was taken up into another place. -/
def put (t : Turns σ ε α) (i : Nat) (task : Task ε α) : Turns σ ε α :=
  { t with tasks := t.tasks.set i task }

/-- Takes up the next job. -/
def append (t : Turns σ ε α) (task : Task ε α) (waiting : List (Job (Except ε α))) :
    Turns σ ε α :=
  { t with tasks := t.tasks ++ [task], waiting, admitted := false }

/-- A pool whose host others have changed. -/
def on (t : Turns σ ε α) (s : σ) : Turns σ ε α := { t with host := s }

/-- Whether all jobs were taken up and have given their permits back. -/
def IsOver (t : Turns σ ε α) : Prop := t.waiting = [] ∧ ∀ task ∈ t.tasks, task.holds = false

/-- The outcomes in the order of the jobs, once the pool is over. -/
def outcomes (t : Turns σ ε α) : List (Outcome ε α) :=
  t.tasks.map fun task => task.outcome?.getD .skipped

/-- How many jobs were started. -/
def started (t : Turns σ ε α) : Nat := t.tasks.countP Task.isStarted

end Turns

/-- What is done in a turn, and the number of the job that it concerns. -/
inductive Move (ε α : Type) where
  /-- The loop takes a permit. -/
  | acquire
  | start (job : Nat)
  | skip (job : Nat)
  | ask (job : Nat) (asked : Asked)
  | finish (job : Nat) (outcome : Outcome ε α)
  /-- A failed job raises the flag. -/
  | raise (job : Nat)
  /-- A job gives its permit back. -/
  | release (job : Nat)

namespace Move

def start? : Move ε α → Option Nat
  | start job => some job
  | _ => none

/-- What a job asked. -/
def asked? (i : Nat) : Move ε α → Option Asked
  | ask job asked => if job = i then some asked else none
  | _ => none

end Move

/-- What a single turn does. The loop looks at the flag when it has a permit, and starts a job in
the same turn. -/
inductive Turn (host : Host σ) : Turns σ ε α → Move ε α → Turns σ ε α → Prop
  | acquire {t n} (hfree : t.permits = n + 1) (hidle : t.admitted = false)
      (hnext : t.waiting ≠ []) :
      Turn host t .acquire { t with permits := n, admitted := true }
  | start {t job waiting} (hadmitted : t.admitted = true) (hnext : t.waiting = job :: waiting)
      (hflag : t.failed = false) :
      Turn host t (.start t.tasks.length) (t.append (.running job) waiting)
  | skip {t job waiting} (hadmitted : t.admitted = true) (hnext : t.waiting = job :: waiting)
      (hflag : t.failed = true) :
      Turn host t (.skip t.tasks.length)
        { t.append .skipped waiting with permits := t.permits + 1 }
  | ask {t i request next} (hrun : t.tasks[i]? = some (.running (.ask request next))) :
      Turn host t (.ask i ⟨request, (host.answer request t.host).1.reply⟩)
        { t.put i (.running (.resume next (host.answer request t.host).1.reply)) with
          host := (host.answer request t.host).2 }
  | finish {t i job result} (hrun : t.tasks[i]? = some (.running job))
      (hend : job.result? = some result) :
      Turn host t (.finish i (.ofResult result))
        (t.put i (.leaving (Outcome.isFailure (.ofResult result)) (.ofResult result)))
  | raise {t i outcome} (hleave : t.tasks[i]? = some (.leaving true outcome)) :
      Turn host t (.raise i) { t.put i (.leaving false outcome) with failed := true }
  | release {t i outcome} (hleave : t.tasks[i]? = some (.leaving false outcome)) :
      Turn host t (.release i) { t.put i (.ended outcome) with permits := t.permits + 1 }

/-- These turns, one after the other, lead from one state of a pool to another. -/
inductive History (host : Host σ) (t₀ : Turns σ ε α) : List (Move ε α) → Turns σ ε α → Prop
  | nothing : History host t₀ [] t₀
  | turn {moves t move t'} (h : History host t₀ moves t) (hturn : Turn host t move t') :
      History host t₀ (moves ++ [move]) t'

variable {host : Host σ}

theorem History.trans {t₀ t t' : Turns σ ε α} {moves later : List (Move ε α)}
    (h : History host t₀ moves t) (h' : History host t later t') :
    History host t₀ (moves ++ later) t' := by
  induction h' with
  | nothing => rwa [List.append_nil]
  | turn _ hturn ih =>
    rw [← List.append_assoc]
    exact .turn ih hturn

theorem History.single {t t' : Turns σ ε α} {move : Move ε α} (h : Turn host t move t') :
    History host t [move] t' := .turn .nothing h

/-- Some turns lead from one state of a pool to another. -/
def Reaches (host : Host σ) (t t' : Turns σ ε α) : Prop := ∃ moves, History host t moves t'

theorem Reaches.refl (t : Turns σ ε α) : Reaches host t t := ⟨[], .nothing⟩

theorem Reaches.trans {t u t' : Turns σ ε α} (h : Reaches host t u) (h' : Reaches host u t') :
    Reaches host t t' := by
  obtain ⟨moves, hmoves⟩ := h
  obtain ⟨later, hlater⟩ := h'
  exact ⟨moves ++ later, hmoves.trans hlater⟩

theorem Turn.reaches {t t' : Turns σ ε α} {move : Move ε α} (h : Turn host t move t') :
    Reaches host t t' := ⟨[move], .single h⟩

/-- In some order of turns the jobs come to these outcomes, and the host to this state. -/
def Runs (host : Host σ) (width : Nat) (jobs : List (Job (Except ε α))) (s : σ)
    (outcomes : List (Outcome ε α)) (s' : σ) : Prop :=
  ∃ t, Reaches host (.start width jobs s) t ∧ t.IsOver ∧ t.outcomes = outcomes ∧ t.host = s'

/-! ### Permits -/

theorem set_self {τ : Type} {l : List τ} {i : Nat} {a : τ} (h : l[i]? = some a) :
    l.set i a = l := by
  obtain ⟨hlt, rfl⟩ := List.getElem?_eq_some_iff.mp h
  exact List.set_getElem_self hlt

theorem countP_set_add {τ : Type} {l : List τ} {i : Nat} {old : τ} (h : l[i]? = some old)
    (p : τ → Bool) (new : τ) :
    (l.set i new).countP p + (p old).toNat = l.countP p + (p new).toNat := by
  induction l generalizing i with
  | nil => simp at h
  | cons x l ih =>
    cases i with
    | zero =>
      cases h
      simp only [List.set_cons_zero, List.countP_cons]
      cases p old <;> cases p new <;> simp
    | succ i =>
      have hrest := ih (i := i) (by simpa using h)
      simp only [List.set_cons_succ, List.countP_cons]
      omega

section Permits

variable {move : Move ε α} {t t' : Turns σ ε α}

theorem Turn.width_eq (h : Turn host t move t') : t'.width = t.width := by
  cases h <;> rfl

/-- Permits are passed on, never made or lost. -/
theorem Turn.permits (h : Turn host t move t') :
    t'.permits + t'.admitted.toNat + t'.tasks.countP Task.holds =
      t.permits + t.admitted.toNat + t.tasks.countP Task.holds := by
  cases h with
  | acquire hfree hidle hnext =>
    simp only [hfree, hidle, Bool.toNat_true, Bool.toNat_false]
  | start hadmitted hnext hflag =>
    simp [Turns.append, hadmitted, Task.holds, List.countP_append]
    omega
  | skip hadmitted hnext hflag =>
    simp [Turns.append, hadmitted, Task.holds, List.countP_append]
  | @ask i request next hrun =>
    have hcount := countP_set_add hrun Task.holds
      (.running (.resume next (host.answer request t.host).1.reply))
    simp only [Turns.put, Task.holds] at hcount ⊢
    omega
  | @finish i job result hrun hend =>
    have hcount := countP_set_add hrun Task.holds
      (.leaving (Outcome.isFailure (.ofResult result)) (.ofResult result))
    simp only [Turns.put, Task.holds] at hcount ⊢
    omega
  | @raise i outcome hleave =>
    have hcount := countP_set_add hleave Task.holds (.leaving false outcome)
    simp only [Turns.put, Task.holds] at hcount ⊢
    omega
  | @release i outcome hleave =>
    have hcount := countP_set_add hleave Task.holds (.ended outcome)
    simp only [Turns.put, Task.holds, Bool.toNat_true, Bool.toNat_false] at hcount ⊢
    omega

end Permits

end Pool

end SqlBackup
