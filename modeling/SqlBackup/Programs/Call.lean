import SqlBackup.Fault
import SqlBackup.Text.Utf8

/-!
# Calls on outside programs

A program is found by name or given by path. A started program is handed all of its input at
once, and then has an output, a complaint and, if it failed, a status.
-/
namespace SqlBackup.Programs

/-- How a program ended. -/
structure Ended where
  output : List UInt8
  /-- What it wrote on its second output. -/
  complaint : List UInt8
  /-- The status of a failure. -/
  failure : Option String
  deriving DecidableEq, Inhabited

/-- What is asked about programs. -/
inductive Call where
  /-- Look a name up among the installed programs. -/
  | find (name : String)
  | start (path : String) (arguments : List String)
  /-- Give a started program its input and wait for its end. -/
  | finish (child : Nat) (input : List UInt8)
  deriving DecidableEq, Inhabited

/-- What a call returns: the path of a program, the number of a started one, or its end. -/
abbrev Call.Reply : Call → Type
  | find _ => Option String
  | start _ _ => Except IoFault Nat
  | finish _ _ => Ended

/-- The failure of a name that no installed program has. -/
def notInstalled (name : String) : Fault :=
  .spawn name (.layer .notFound "cannot find binary path")

/-- The fault of a program that ended in failure. -/
def Ended.fault? (e : Ended) (path : String) : Option Fault :=
  e.failure.map fun status => .processFailed path status (Text.Utf8.decodeLenient e.complaint)

end SqlBackup.Programs
