import SqlBackup.Fault.Session
import SqlBackup.Value.Basic

/-!
# Sessions

A session is one line to the database server. It has a current database and at most one open
transaction, so jobs that work side by side hold a session each.
-/
namespace SqlBackup

/-- A session, and what its server calls itself. -/
structure Session where
  id : Nat
  product : String
  version : String
  deriving DecidableEq, Inhabited

namespace Session

/-- What a session is asked to do. -/
inductive Call where
  /-- Answer within the limit. -/
  | ping (limit : Calendar.Duration)
  | useDatabase (database : String)
  | execute (sql : String)
  | query (sql : String)
  /-- Open a transaction. -/
  | begin
  /-- Execute inside the open transaction. -/
  | executeInside (sql : String)
  | commit
  | rollback
  deriving DecidableEq, Inhabited

/-- What a call returns if it does not fail. -/
abbrev Call.Reply : Call → Type
  | query _ => QueryResult
  | _ => Unit

end Session

end SqlBackup
