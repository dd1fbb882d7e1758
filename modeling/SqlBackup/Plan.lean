import SqlBackup.Pool

/-!
# Plans

A plan is work whose middle part is done side by side: once it is known what there is to do, jobs
run in a pool, and what is left to do depends on their outcomes only.
-/
namespace SqlBackup

namespace Pool

variable {α : Type}

/-- What an outcome yielded. -/
def Outcome.value? : Outcome Fault α → Option α
  | value result => some result
  | _ => none

/-- Why there is no value. A breakdown is blamed on the name of its job. -/
def Outcome.fault? (blame : String → Fault → Fault) (name : String) :
    Outcome Fault α → Option Fault
  | failed fault => some fault
  | panicked text => some (blame name (.jobPanicked (panicReport text)))
  | _ => none

/-- The values in the order of the jobs, or the fault of the first job that has one. -/
def gather (blame : String → Fault → Fault) (names : List String)
    (outcomes : List (Outcome Fault α)) : Except Fault (List α) :=
  match (names.zip outcomes).findSome? fun (name, outcome) => outcome.fault? blame name with
  | some fault => .error fault
  | none => .ok (outcomes.filterMap Outcome.value?)

@[simp] theorem gather_nil (blame : String → Fault → Fault) (names : List String) :
    gather (α := α) blame names [] = .ok [] := by simp [gather]

end Pool

/-- Jobs that run side by side, and what is done about their outcomes. -/
structure Plan (β α : Type) where
  /-- How many jobs run at a time. -/
  width : Nat
  jobs : List (Work β)
  conclude : List (Pool.Outcome Fault β) → Work α

/-- Makes a plan on a host and carries it out. Only a breakdown outside of the jobs is one of the
whole. -/
def Plan.carryOut {σ β α : Type} (host : Host σ) (planning : Work (Plan β α)) (s : σ) :
    Except String (Except Fault α) × σ :=
  let (ended, s) := planning.run.run host s
  match ended.result with
  | .error text => (.error text, s)
  | .ok (.error fault) => (.ok (.error fault), s)
  | .ok (.ok plan) =>
      let r := Pool.run host plan.width (plan.jobs.map ExceptT.run) s
      let (ended, s) := (plan.conclude r.pool.outcomes).run.run host r.host
      (ended.result, s)

end SqlBackup
