import SqlBackup.Digest.Sha256
import SqlBackup.Dump.Format
import SqlBackup.Job

/-!
# Looking at a dump

The format of a file and the digest of its bytes are told by reading it.
-/
namespace SqlBackup.Dump

/-- The bytes of the file that a path names. -/
def bytesOf (path : String) : Work (List UInt8) := do
  let content ← Work.onPath path (.file (.read path))
  Work.ofResult (content.all.mapError (.io path))

/-- As many of its first bytes as tell its format. -/
def headerOf (path : String) : Work (List UInt8) := do
  let content ← Work.onPath path (.file (.read path))
  Work.ofResult ((content.front headerLength).mapError (.io path))

/-- The format of a dump. A caller who names the compression says that it is plain. -/
def detect (path : String) (explicit : Option Compression) : Work Format :=
  match explicit with
  | some compression => pure ⟨compression, .plain⟩
  | none => do
      let header ← headerOf path
      pure (.ofHeader path header)

/-- The SHA-256 digest of a file. -/
def digest (path : String) : Work String := do
  let bytes ← bytesOf path
  pure (Digest.Sha256.hex bytes)

end SqlBackup.Dump
