import SqlBackup.Compression
import SqlBackup.Job

/-!
# Codecs

A codec turns a dump into a file and back. It works inside or hands the bytes to an outside
program, and what it is chosen for tells which.
-/
namespace SqlBackup

/-- A way to read and write dumps of one kind. -/
inductive Codec where
  | inside (compression : Compression)
  /-- By the program at this path. -/
  | outside (compression : Compression) (program : String)
  deriving DecidableEq, Inhabited

namespace Codec

def compression : Codec → Compression
  | inside c => c
  | outside c _ => c

/-- The codec that runs the installed program for a kind of compression. -/
def installed (c : Compression) : Work Codec :=
  match c.program? with
  | none => .fail (.invalidOptions "uncompressed dumps need no external codec")
  | some name => do
      match ← Work.ofJob (.program (.find name)) with
      | none => .fail (Programs.notInstalled name)
      | some path => pure (outside c path)

/-- The codec for a kind of compression. Programs are used where they are preferred, and for xz
always. -/
def choose (c : Compression) (external : Bool) : Work Codec :=
  match c with
  | .none => pure (inside .none)
  | .xz => installed .xz
  | c => if external then installed c else pure (inside c)

/-- The refusal of a codec that there is none of. -/
def noneInside : Fault :=
  .invalidOptions "xz has no in-process codec; use the external xz binary"

/-- The arguments of a program that compresses, or that gives the plain text back. -/
def arguments (c : Compression) (back : Bool) : List String :=
  (if back then ["-d"] else []) ++ ["-c"] ++ (if c == .zstd then ["-q"] else [])

/-- Starts the program of an outside codec. -/
def start (c : Compression) (program : String) (back : Bool) : Work Nat :=
  .ofExcept (.spawn program) (.program (.start program (arguments c back)))

end Codec

end SqlBackup
