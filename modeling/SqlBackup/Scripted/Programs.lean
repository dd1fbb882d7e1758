import SqlBackup.Files.Path
import SqlBackup.Programs.Call

/-!
# Scripted programs

Programs that end in a way fixed in advance. Each keeps a record of the arguments that it was
started with.
-/
namespace SqlBackup.Scripted

/-- A program with a fixed behaviour. -/
structure Stub where
  name : String
  /-- Whether the input is copied to the output first. -/
  passes : Bool
  output : List UInt8
  complaint : List UInt8
  failure : Option String
  /-- The arguments of each start, as one line. -/
  starts : List String := []
  deriving DecidableEq, Inhabited

/-- The programs of one directory. -/
structure Shelf where
  directory : String
  stubs : List Stub
  deriving DecidableEq, Inhabited

namespace Shelf

def path (s : Shelf) (stub : Stub) : String := Files.Path.join s.directory stub.name

/-- Records a start of one of the programs. -/
def record (arguments : List String) : Nat → List Stub → List Stub
  | _, [] => []
  | 0, stub :: stubs =>
      { stub with starts := stub.starts ++ [" ".intercalate arguments] } :: stubs
  | n + 1, stub :: stubs => stub :: record arguments n stubs

def start (s : Shelf) (path : String) (arguments : List String) : Except IoFault Nat × Shelf :=
  match s.stubs.findIdx? fun stub => s.path stub == path with
  | none => (.error (.os .notFound), s)
  | some i => (.ok i, { s with stubs := record arguments i s.stubs })

def finish (s : Shelf) (child : Nat) (input : List UInt8) : Programs.Ended :=
  match s.stubs[child]? with
  | none => ⟨[], [], none⟩
  | some stub =>
      ⟨(if stub.passes then input else []) ++ stub.output, stub.complaint, stub.failure⟩

/-- Answers a call. -/
def call (s : Shelf) : (c : Programs.Call) → c.Reply × Shelf
  | .find name => ((s.stubs.find? (·.name == name)).map s.path, s)
  | .start path arguments => s.start path arguments
  | .finish child input => (s.finish child input, s)

end Shelf

end SqlBackup.Scripted
