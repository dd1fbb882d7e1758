import SqlBackup.Job
import SqlBackup.Text.Search

/-!
# A scripted server

A server whose answers are fixed in advance. A query is answered by the first entry that fits it,
and rules make some of the calls fail, break down or take time. Each session keeps a log of the
calls made on it.
-/
namespace SqlBackup.Scripted

/-- The answer to a query, in any database or in one. -/
structure Entry where
  sql : String
  database : Option String
  result : QueryResult
  deriving Inhabited

/-- What a rule does to a call. -/
inductive Effect where
  | refuse (fault : SessionFault)
  | panic (text : String)
  | delay (length : Calendar.Duration)
  deriving DecidableEq, Inhabited

/-- A rule for calls of one name, or of any, whose text contains `part`. -/
structure Rule where
  call : Option String
  part : String
  /-- How many calls are still passed over. -/
  skip : Nat
  /-- How often the rule still applies, if there is a bound. -/
  times : Option Nat
  effect : Effect
  deriving DecidableEq, Inhabited

def Rule.fits (r : Rule) (call text : String) : Bool :=
  r.call.all (· == call) && Text.contains text r.part

/-- The effect of the first rule that applies to a call, and the rules as they are then. -/
def Rule.first (call text : String) : List Rule → Option Effect × List Rule
  | [] => (none, [])
  | r :: rs =>
      if !r.fits call text then
        let (effect, rs) := first call text rs
        (effect, r :: rs)
      else if r.skip > 0 then
        let (effect, rs) := first call text rs
        (effect, { r with skip := r.skip - 1 } :: rs)
      else if r.times == some 0 then
        let (effect, rs) := first call text rs
        (effect, r :: rs)
      else (some r.effect, { r with times := r.times.map (· - 1) } :: rs)

structure Server where
  entries : List Entry
  rules : List Rule
  product : String
  version : String
  /-- The calls of each session, in order. -/
  logs : List (List String) := []
  /-- The current database of the sessions that have one. -/
  databases : List (Nat × String) := []
  deriving Inhabited

namespace Server

/-- Adds a line to the log of a session. -/
def logAt (line : String) : Nat → List (List String) → List (List String)
  | 0, [] => [[line]]
  | 0, log :: logs => (log ++ [line]) :: logs
  | n + 1, [] => [] :: logAt line n []
  | n + 1, log :: logs => log :: logAt line n logs

/-- The line of a call in the log. -/
def line (name text : String) (failed : Bool) : String :=
  name ++ (if failed then "!" else "") ++ (if text.isEmpty then "" else " " ++ text)

/-- Looks for the effect of the rules on a call, and puts the call into the log of a session. -/
def enter (sv : Server) (id : Nat) (name text : String) : Option Effect × Server :=
  let (effect, rules) := Rule.first name text sv.rules
  let failed := match effect with
    | some (.refuse _) => true
    | some (.panic _) => true
    | _ => false
  (effect, { sv with rules, logs := logAt (line name text failed) id sv.logs })

/-- A session that no call is made for. -/
def connect (sv : Server) : Session × Server :=
  let id := sv.logs.length
  (⟨id, sv.product, sv.version⟩,
    { sv with
      logs := sv.logs ++ [[]]
      databases := sv.databases.filter (·.1 != id) })

/-- A session of its own for a job. -/
def acquire (sv : Server) : Answer (Except SessionFault Session) × Server :=
  let (session, sv) := sv.connect
  match sv.enter session.id "acquire" "" with
  | (some (.refuse fault), sv) => ({ reply := .ok (.error fault) }, sv)
  | (some (.panic text), sv) => ({ reply := .error text }, sv)
  | (some (.delay length), sv) => ({ reply := .ok (.ok session), delay := length }, sv)
  | (none, sv) => ({ reply := .ok (.ok session) }, sv)

/-- The name of a call in the log, and its text. -/
def describe : Session.Call → String × String
  | .ping _ => ("ping", "")
  | .useDatabase database => ("use", database)
  | .execute sql => ("exec", sql)
  | .query sql => ("query", sql)
  | .begin => ("begin", "")
  | .executeInside sql => ("tx", sql)
  | .commit => ("commit", "")
  | .rollback => ("rollback", "")

/-- The answer to a query on a session. -/
def lookUp (sv : Server) (id : Nat) (sql : String) : QueryResult :=
  let current := (sv.databases.find? (·.1 == id)).map (·.2)
  let entry := sv.entries.find? fun e =>
    e.sql == sql && (e.database.isNone || e.database == current)
  (entry.map (·.result)).getD ⟨[], []⟩

/-- What a call that does not fail returns. -/
def obey (sv : Server) (id : Nat) : (call : Session.Call) → call.Reply × Server
  | .ping _ => ((), sv)
  | .useDatabase database =>
      ((), { sv with databases := (id, database) :: sv.databases.filter (·.1 != id) })
  | .execute _ => ((), sv)
  | .query sql => (sv.lookUp id sql, sv)
  | .begin => ((), sv)
  | .executeInside _ => ((), sv)
  | .commit => ((), sv)
  | .rollback => ((), sv)

/-- The limit on the time that a call may take. -/
def limit? : Session.Call → Option Calendar.Duration
  | .ping limit => some limit
  | _ => none

/-- Answers a call of a session. A call that takes longer than its limit is given up then. -/
def call (sv : Server) (id : Nat) (call : Session.Call) :
    Answer (Except SessionFault call.Reply) × Server :=
  let (name, text) := describe call
  match sv.enter id name text with
  | (some (.refuse fault), sv) => ({ reply := .ok (.error fault) }, sv)
  | (some (.panic text), sv) => ({ reply := .error text }, sv)
  | (some (.delay length), sv) =>
      match limit? call with
      | some limit =>
          if limit.nanos < length.nanos then
            ({ reply := .ok (.error (.timeout limit)), delay := limit }, sv)
          else
            let (reply, sv) := sv.obey id call
            ({ reply := .ok (.ok reply), delay := length }, sv)
      | none =>
          let (reply, sv) := sv.obey id call
          ({ reply := .ok (.ok reply), delay := length }, sv)
  | (none, sv) =>
      let (reply, sv) := sv.obey id call
      ({ reply := .ok (.ok reply) }, sv)

/-- The logs of all sessions, and the server with its logs emptied. -/
def takeLogs (sv : Server) : List (List String) × Server := (sv.logs, { sv with logs := [] })

end Server

end SqlBackup.Scripted
