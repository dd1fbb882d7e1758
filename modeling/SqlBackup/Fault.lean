import SqlBackup.Fault.Io
import SqlBackup.Fault.Session
import SqlBackup.Text.Blank
import SqlBackup.Text.Excerpt

/-!
# Failures of a backup or a restore

One type names every cause for which exporting, importing or managing backups stops. The wording
is in `Fault.message` alone; everything else handles causes.
-/
namespace SqlBackup

/-- A statement that the server refused. Its batch is rolled back. -/
structure StatementFault where
  /-- The database that the statement ran against. -/
  database : String
  /-- The offset in the source just behind the statement. -/
  offset : Nat
  /-- The start of the statement. -/
  excerpt : String
  /-- What the server said. -/
  reason : String
  deriving DecidableEq, Inhabited

namespace StatementFault

/-- The fault of a statement, of which a report shows the start only. -/
def ofStatement (database : String) (offset : Nat) (sql reason : String) : StatementFault :=
  ⟨database, offset, Text.excerpt Text.excerptLimit sql, reason⟩

def message (f : StatementFault) : String :=
  "Statement at byte " ++ toString f.offset ++ " failed: " ++ f.reason ++
    " [" ++ f.excerpt ++ "]"

end StatementFault

/-- How the list of a backup's contents fails to be read. -/
inductive ManifestFault where
  /-- The text is no JSON. -/
  | malformed
  /-- The text is JSON of the wrong shape. -/
  | wrongShape
  /-- The text ends too soon. -/
  | cutShort
  deriving DecidableEq, Inhabited

/-- Why an export, an import or a backup stopped. -/
inductive Fault where
  | io (path : String) (cause : IoFault)
  /-- An outside program did not start. -/
  | spawn (program : String) (cause : IoFault)
  /-- An outside program ran and reported failure. -/
  | processFailed (program status complaint : String)
  /-- More bytes than the limit came without a delimiter. -/
  | statementTooLarge (limit offset : Nat)
  /-- The bytes of a statement are not UTF-8. -/
  | invalidEncoding (offset : Nat)
  | statement (cause : StatementFault)
  /-- The backup of one database failed, so no backup was kept. -/
  | backupOf (database : String) (cause : Fault)
  /-- The restore of one database failed. -/
  | restoreOf (database : String) (cause : Fault)
  /-- A dump is not the one that was recorded. -/
  | checksumMismatch (path expected actual : String)
  | jobPanicked (text : String)
  | backupNotFound (id : String)
  /-- Only a plain dump can be resumed in the middle. -/
  | resumeUnsupported (path : String)
  | invalidOptions (text : String)
  | session (cause : SessionFault)
  | config (cause : ConfigFault)
  | manifest (cause : ManifestFault)
  deriving DecidableEq, Inhabited

namespace Fault

/-- What a program complained of, after a colon, if it said anything. -/
def complaintSuffix (complaint : String) : String :=
  let said := Text.trim complaint
  if said.isEmpty then "" else ": " ++ Text.excerpt Text.excerptLimit said

def message : Fault → String
  | io path cause => "I/O error on " ++ path ++ ": " ++ cause.message
  | spawn program cause => "Failed to start " ++ program ++ ": " ++ cause.message
  | processFailed program status complaint =>
      program ++ " exited with " ++ status ++ complaintSuffix complaint
  | statementTooLarge limit offset =>
      "Statement exceeds " ++ toString limit ++ " bytes without a delimiter (at byte " ++
        toString offset ++ ")"
  | invalidEncoding offset => "Invalid UTF-8 in statement ending at byte " ++ toString offset
  | statement cause => cause.message
  | backupOf database cause => "Backup of database '" ++ database ++ "' failed: " ++ cause.message
  | restoreOf database cause =>
      "Restore of database '" ++ database ++ "' failed: " ++ cause.message
  | checksumMismatch path expected actual =>
      "Checksum mismatch for " ++ path ++ ": expected " ++ expected ++ ", found " ++ actual
  | jobPanicked text => "Job panicked: " ++ text
  | backupNotFound id => "Backup not found: " ++ id
  | resumeUnsupported path =>
      "Cannot resume " ++ path ++ ": resume is only supported for uncompressed dumps"
  | invalidOptions text => "Invalid options: " ++ text
  | session cause => cause.message
  | config cause => cause.message
  | manifest _ => "Metadata error"

end Fault

/-- Why a stream of bytes broke off: a failure of the stream itself, or the fault of a program
behind it, which the stream only carries. -/
inductive StreamFault where
  | plain (cause : IoFault)
  | carried (cause : Fault)
  deriving DecidableEq, Inhabited

/-- The fault of a stream that is known by this path. A carried fault stays what it is. -/
def Fault.ofStream (path : String) : StreamFault → Fault
  | .plain cause => .io path cause
  | .carried cause => cause

@[simp] theorem Fault.ofStream_carried (path : String) (f : Fault) :
    Fault.ofStream path (.carried f) = f := rfl

end SqlBackup
