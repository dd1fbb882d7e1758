import SqlBackup.Job

/-!
# Archives

An archive is no text, so another program restores it.
-/
namespace SqlBackup.Load

/-- What restores an archive into a database. -/
inductive Restorer where
  /-- The installed `pg_restore`. -/
  | installed
  /-- The program at a path, with arguments of its own. -/
  | command (path : String) (arguments : List String)
  /-- Any work, given the path of the archive and the database. -/
  | custom (restore : String → String → Work Unit)

namespace Restorer

/-- The arguments that go to a program unless it is given others. -/
def defaultArguments : List String := ["--no-owner"]

/-- Runs a program that restores an archive. -/
def run (program : String) (arguments : List String) (path database : String) : Work Unit := do
  let all := ["--dbname", database] ++ arguments ++ [path]
  let child ← Work.ofExcept (.spawn program) (.program (.start program all))
  let ended ← Work.ofJob (.program (.finish child []))
  match ended.fault? program with
  | none => pure ()
  | some fault => .fail fault

/-- Restores an archive. -/
def restore (r : Restorer) (path database : String) : Work Unit :=
  match r with
  | installed => do
      match ← Work.ofJob (.program (.find "pg_restore")) with
      | none => .fail (Programs.notInstalled "pg_restore")
      | some program => run program defaultArguments path database
  | command program arguments => run program arguments path database
  | custom work => work path database

end Restorer

end SqlBackup.Load
