import SqlBackup.Job
import SqlBackup.Text.Quoted

/-!
# A pool of jobs

Jobs are taken up in the order of their request, at most `width` at a time. Once one has failed or
broken down no further job is started; those that are running go on to their end. The outcomes
are in the order of the request, whatever order the jobs end in.
-/
namespace SqlBackup.Pool

/-- What became of a job. -/
inductive Outcome (ε α : Type) where
  | value (result : α)
  | failed (fault : ε)
  | panicked (text : String)
  /-- It was not started, because another had failed. -/
  | skipped
  deriving DecidableEq, Inhabited

namespace Outcome

variable {ε α : Type}

def isFailure : Outcome ε α → Bool
  | failed _ => true
  | panicked _ => true
  | _ => false

/-- The outcome of a job that came to an end. -/
def ofResult : Except String (Except ε α) → Outcome ε α
  | .error text => panicked text
  | .ok (.error fault) => failed fault
  | .ok (.ok a) => value a

end Outcome

/-- How a breakdown is reported. The number of the task is not told. -/
def panicReport (text : String) : String :=
  "task N panicked with message " ++ Text.quoted text

/-- Where a job is that was taken up. -/
inductive Slot (ε α : Type) where
  | running
  | ended (outcome : Outcome ε α)
  deriving DecidableEq, Inhabited

def Slot.isRunning {ε α : Type} : Slot ε α → Bool
  | running => true
  | ended _ => false

/-- A pool at work. The slots are those of the jobs taken up, in the order of their request. -/
structure State (ε α : Type) where
  width : Nat
  slots : List (Slot ε α)
  failed : Bool
  deriving Inhabited

namespace State

variable {ε α : Type}

/-- A pool before its first job. At least one job is always let run. -/
def idle (width : Nat) : State ε α := ⟨max 1 width, [], false⟩

/-- How many jobs run. -/
def busy (p : State ε α) : Nat := p.slots.countP Slot.isRunning

/-- Whether another job can be taken up. -/
def hasRoom (p : State ε α) : Bool := p.busy < p.width

/-- Takes the next job up: it is started, or skipped after a failure. -/
def take (p : State ε α) : State ε α :=
  { p with slots := p.slots ++ [if p.failed then .ended .skipped else .running] }

/-- Ends a running job. -/
def complete (p : State ε α) (job : Nat) (outcome : Outcome ε α) : State ε α :=
  { p with
    slots := p.slots.set job (.ended outcome)
    failed := p.failed || outcome.isFailure }

/-- The outcomes of all jobs, once none runs. -/
def outcomes (p : State ε α) : List (Outcome ε α) :=
  p.slots.map fun slot =>
    match slot with
    | .running => .skipped
    | .ended outcome => outcome

@[simp] theorem width_take (p : State ε α) : p.take.width = p.width := rfl

@[simp] theorem width_complete (p : State ε α) (job : Nat) (outcome : Outcome ε α) :
    (p.complete job outcome).width = p.width := rfl

@[simp] theorem length_slots_take (p : State ε α) :
    p.take.slots.length = p.slots.length + 1 := by simp [take]

@[simp] theorem length_slots_complete (p : State ε α) (job : Nat) (outcome : Outcome ε α) :
    (p.complete job outcome).slots.length = p.slots.length := by simp [complete]

end State

/-- What happens in a pool. -/
inductive Moment where
  | started (job : Nat)
  | ended (job : Nat)
  deriving DecidableEq, Inhabited

/-- A job that runs, with the time of its end and what becomes of it then. -/
structure Pending (ε α : Type) where
  job : Nat
  due : Nat
  outcome : Outcome ε α
  deriving Inhabited

/-- A run of a pool on a host with state `σ`. What a job does to the host it does when it starts;
its end comes after the time that it takes. -/
structure Run (σ ε α : Type) where
  pool : State ε α
  clock : Nat
  pending : List (Pending ε α)
  moments : List Moment
  host : σ

namespace Run

variable {σ ε α : Type}

/-- The job that ends first, and the others. Of two that end together the earlier goes first. -/
def earliest : List (Pending ε α) → Option (Pending ε α × List (Pending ε α))
  | [] => none
  | p :: ps =>
      match earliest ps with
      | none => some (p, [])
      | some (q, rest) => if p.due ≤ q.due then some (p, ps) else some (q, p :: rest)

/-- Lets time pass until a job ends. -/
def step (r : Run σ ε α) : Run σ ε α :=
  match earliest r.pending with
  | none => r
  | some (p, rest) =>
      { r with
        pool := r.pool.complete p.job p.outcome
        clock := max r.clock p.due
        pending := rest
        moments := r.moments ++ [.ended p.job] }

/-- Takes the next job up. -/
def take (host : Host σ) (r : Run σ ε α) (job : Job (Except ε α)) : Run σ ε α :=
  let r := if r.pool.hasRoom then r else r.step
  if r.pool.failed then { r with pool := r.pool.take }
  else
    let index := r.pool.slots.length
    let (ended, s) := job.run host r.host
    { r with
      pool := r.pool.take
      pending :=
        r.pending ++ [⟨index, r.clock + ended.lasted.nanos, .ofResult ended.result⟩]
      moments := r.moments ++ [.started index]
      host := s }

/-- Lets every running job end. -/
def drain : Nat → Run σ ε α → Run σ ε α
  | 0, r => r
  | n + 1, r => drain n r.step

end Run

/-- Runs jobs, `width` at a time. -/
def run {σ ε α : Type} (host : Host σ) (width : Nat) (jobs : List (Job (Except ε α))) (s : σ) :
    Run σ ε α :=
  let r := jobs.foldl (Run.take host) ⟨.idle width, 0, [], [], s⟩
  r.drain r.pending.length

end SqlBackup.Pool
