import SqlBackup.Job
import SqlBackup.Scan.State

/-!
# Batches of statements

Statements are executed in groups of a fixed size, each inside a transaction of its own. A
statement that fails takes its whole group with it. Whether the load then goes on with the next
group is for a policy to decide.
-/
namespace SqlBackup.Load

/-- What is done after a group failed. -/
inductive Decision where
  /-- Note the fault and go on with the next group. -/
  | proceed
  | abort
  deriving DecidableEq, Inhabited

/-- Decides what is done after a fault. -/
abbrev Policy := StatementFault → Decision

/-- What stays the same for all groups of a load. -/
structure BatchSettings where
  session : Session
  database : String
  /-- How many statements a group has, at least one. -/
  size : Nat
  size_pos : 0 < size := by omega
  policy : Policy

/-- Settings with groups of this size. A size of 0 stands for 1. -/
def BatchSettings.ofSize (session : Session) (database : String) (size : Nat) (policy : Policy) :
    BatchSettings where
  session := session
  database := database
  size := max 1 size
  policy := policy

/-- The group being filled, and what became of those before. -/
structure Batches where
  pending : List Statement := []
  /-- How many statements were committed. -/
  executed : Nat := 0
  /-- How many groups were committed. -/
  committed : Nat := 0
  /-- The faults that the policy went on after. -/
  errors : List StatementFault := []
  deriving Inhabited

/-- Executes statements in a transaction, up to the first that fails. -/
def executeAll (s : Session) : List Statement → Job (Option (Statement × SessionFault))
  | [] => pure none
  | statement :: statements => do
      match ← Job.request (.session s (.executeInside statement.sql)) with
      | .ok () => executeAll s statements
      | .error cause => pure (some (statement, cause))

/-- Executes a group as one transaction. A fault in it is returned; that the transaction could not
even be opened is thrown. -/
def transact (s : Session) (database : String) (group : List Statement) :
    Work (Option StatementFault) := do
  s.call .begin
  match ← Work.ofJob (executeAll s group) with
  | some (statement, cause) =>
      let _ ← Work.ofJob (.request (.session s .rollback))
      pure (some (.ofStatement database statement.endOffset statement.sql cause.message))
  | none =>
      match ← Work.ofJob (.request (.session s .commit)) with
      | .ok () => pure none
      | .error cause =>
          let offset := (group.getLast?.map (·.endOffset)).getD 0
          pure (some (.ofStatement database offset "COMMIT" cause.message))

namespace Batches

/-- Notes that a group was committed. -/
def commit (b : Batches) (group : List Statement) : Batches :=
  { b with executed := b.executed + group.length, committed := b.committed + 1 }

/-- Executes the statements that wait. They wait no longer, whatever becomes of them. -/
def flush (settings : BatchSettings) (b : Batches) : Job (Except Fault Unit × Batches) :=
  if b.pending.isEmpty then pure (.ok (), b)
  else do
    let group := b.pending
    let b := { b with pending := [] }
    match ← (transact settings.session settings.database group).run with
    | .error fault => pure (.error fault, b)
    | .ok none => pure (.ok (), b.commit group)
    | .ok (some fault) =>
        match settings.policy fault with
        | .proceed => pure (.ok (), { b with errors := b.errors ++ [fault] })
        | .abort => pure (.error (.statement fault), b)

/-- Adds a statement, and executes the group if that fills it. -/
def push (settings : BatchSettings) (b : Batches) (statement : Statement) :
    Job (Except Fault Unit × Batches) :=
  let b := { b with pending := b.pending ++ [statement] }
  if b.pending.length < settings.size then pure (.ok (), b) else b.flush settings

end Batches

end SqlBackup.Load
