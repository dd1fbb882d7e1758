import SqlBackup.Fault.Io

/-!
# Calls on files

What the library does with files. A path names a file, a directory or nothing. A file that can be
opened may still stop being readable behind its first bytes.
-/
namespace SqlBackup.Files

/-- What a path names. -/
inductive Kind where
  | file
  | directory
  deriving DecidableEq, Inhabited

/-- What is found where a path is opened. A directory can be opened, but not read. -/
inductive Entry where
  | file (bytes : List UInt8)
  | directory
  deriving DecidableEq, Inhabited

def Entry.kind : Entry → Kind
  | file _ => .file
  | directory => .directory

/-- What reading gets: bytes, and why there are no more of them, unless they are all there are. -/
structure Content where
  bytes : List UInt8
  failure : Option IoFault := none
  deriving DecidableEq, Inhabited

namespace Content

/-- All bytes, unless reading fails behind them. -/
def all (c : Content) : Except IoFault (List UInt8) :=
  match c.failure with
  | none => .ok c.bytes
  | some fault => .error fault

/-- The first bytes, this many or as many as there are, unless reading fails before. -/
def front (c : Content) (count : Nat) : Except IoFault (List UInt8) :=
  if count ≤ c.bytes.length then .ok (c.bytes.take count) else c.all

/-- What reading gets from an offset on. -/
def behind (c : Content) (offset : Nat) : Content := { c with bytes := c.bytes.drop offset }

end Content

/-- What reading gets of what was opened. -/
def Entry.content : Entry → Content
  | file bytes => ⟨bytes, none⟩
  | directory => ⟨[], some (.os .isADirectory)⟩

/-- What a store of files is asked to do. -/
inductive Call where
  /-- Tell what a path names. -/
  | kind (path : String)
  | read (path : String)
  | size (path : String)
  /-- Make an empty file, or empty the one that is there. -/
  | create (path : String)
  | append (path : String) (bytes : List UInt8)
  /-- Make sure that a file will outlast a failure of the system. -/
  | sync (path : String)
  | remove (path : String)
  /-- Make a directory where nothing is. -/
  | makeDirectory (path : String)
  /-- Make a directory, and those above it, unless they are there. -/
  | makeDirectories (path : String)
  /-- Remove a directory and all below it. -/
  | removeTree (path : String)
  /-- Tell the names in a directory. -/
  | list (path : String)
  /-- Give a file another name, in place of a file that has it. -/
  | rename (source target : String)
  deriving DecidableEq, Inhabited

/-- What a call returns. -/
abbrev Call.Reply : Call → Type
  | kind _ => Option Kind
  | read _ => Except IoFault Content
  | size _ => Except IoFault Nat
  | list _ => Except IoFault (List String)
  | _ => Except IoFault Unit

end SqlBackup.Files
