import SqlBackup.Job
import SqlBackup.Sql.Statements
import SqlBackup.Value.Literal

/-!
# Loads without constraint checks

Rows of a dump come in no order that its foreign keys ask for, so the checks are switched off
while it is loaded. They get their values back however the load went.
-/
namespace SqlBackup.Load

/-- Reads the values of session variables, as literals. A variable without a value counts as on. -/
def readChecks (s : Session) : List String → Work (List (String × String))
  | [] => pure []
  | name :: names => do
      let result ← s.call (.query (Sql.readVariable name))
      let saved ← readChecks s names
      pure ((name, (result.cell? 0 0).elim "1" Value.literal) :: saved)

/-- Switches session variables off, up to the first that cannot be. -/
def switchOff (s : Session) : List String → Work Unit
  | [] => pure ()
  | name :: names => do
      s.call (.execute (Sql.setVariable name "0"))
      switchOff s names

/-- Gives session variables their values back, all that it can be done for. The first refusal is
returned. -/
def putBack (s : Session) : List (String × String) → Job (Option SessionFault)
  | [] => pure none
  | (name, value) :: saved => do
      let answer ← Job.request (.session s (.execute (Sql.setVariable name value)))
      let later ← putBack s saved
      match answer with
      | .ok () => pure later
      | .error cause => pure (some cause)

/-- Runs `body` without constraint checks. Its own fault goes before one of the checks. -/
def withoutChecks {α : Type} (s : Session) (body : Work α) : Work α := do
  let saved ← readChecks s Sql.constraintVariables
  let outcome ← Work.outcome (do
    switchOff s (saved.map (·.1))
    body)
  match outcome, ← Work.ofJob (putBack s saved) with
  | .ok value, none => pure value
  | .ok _, some cause => .fail (.session cause)
  | .error fault, _ => .fail fault

end SqlBackup.Load
