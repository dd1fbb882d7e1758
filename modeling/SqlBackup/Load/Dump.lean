import SqlBackup.Codec.Reading
import SqlBackup.Dump.Inspect
import SqlBackup.Load.Archive
import SqlBackup.Load.Batch
import SqlBackup.Load.Checks
import SqlBackup.Load.Rename
import SqlBackup.Scan.Remaining
import SqlBackup.Sizing

/-!
# Loading a dump

A plain dump is read statement by statement and executed in groups; an archive goes to a program
of its own. A load can start in the middle of a plain dump, at the end of a statement.
-/
namespace SqlBackup.Load

/-- What is loaded, where to, and how. -/
structure Options where
  path : String
  database : String
  /-- Whether the database is created first, if it is not there. -/
  createDatabase : Bool := false
  /-- The database that the dump was taken from, if it is loaded under another name. -/
  renameFrom : Option String := none
  /-- The compression, if it is not to be told from the file. -/
  compression : Option Compression := none
  external : Bool := false
  /-- The most bytes that a statement may have. -/
  statementLimit : Nat := Scan.defaultLimit
  /-- How many statements a transaction has, if the size of the file does not tell. -/
  batchSize : Option Nat := none
  /-- The offset of the end of a statement to start from. -/
  resumeOffset : Nat := 0
  /-- The delimiter at that offset. -/
  resumeDelimiter : Scan.Delimiter := Scan.semicolon
  policy : Policy := fun _ => .abort
  restorer : Restorer := .installed

/-- What a load did. -/
structure Stats where
  executed : Nat := 0
  /-- The statements passed over because they name the database of origin. -/
  skipped : Nat := 0
  bytesRead : Nat := 0
  /-- The length of the file, if it is plain. -/
  totalBytes : Option Nat := none
  /-- The offset behind the last statement. -/
  endOffset : Nat := 0
  /-- The delimiter at the end. -/
  delimiter : List UInt8 := [0x3B]
  errors : List StatementFault := []
  format : Dump.Format
  deriving Inhabited

/-- After how many statements a load tells how far it is. -/
def reportInterval : Nat := 100

/-- What stays the same while statements are loaded. -/
structure Course where
  batches : BatchSettings
  /-- Whether a statement is passed over. -/
  passesOver : String → Bool
  totalBytes : Option Nat

/-- How far a load is. -/
structure Progress where
  batches : Batches := {}
  skipped : Nat := 0
  /-- The statements handed on for execution. -/
  seen : Nat := 0
  endOffset : Nat := 0
  deriving Inhabited

/-- Tells how far a load is. -/
def Course.report (c : Course) (bytesRead executed : Nat) : Work Unit :=
  Work.tell (.loading c.batches.database bytesRead c.totalBytes executed)

/-- Hands a statement on, and tells every so often how far the load is. -/
def Course.take (c : Course) (position : Nat) (p : Progress) (statement : Statement) :
    Work Progress := do
  let p := { p with endOffset := statement.endOffset }
  if c.passesOver statement.sql then pure { p with skipped := p.skipped + 1 }
  else
    let (answer, batches) ← Work.ofJob (p.batches.push c.batches statement)
    Work.ofResult answer
    let p := { p with batches, seen := p.seen + 1 }
    if p.seen % reportInterval = 0 then
      c.report position batches.executed
      pure p
    else pure p

/-- Loads all that a scanner has left. -/
def Course.loadAll (c : Course) (sc : Scanner) (p : Progress) : Work (Scanner × Progress) :=
  match _next : sc.next with
  | (_, .error fault) => .fail fault
  | (sc', .ok none) => pure (sc', p)
  | (sc', .ok (some statement)) => do
      let p ← c.take sc'.position p statement
      c.loadAll sc' p
termination_by sc.remaining
decreasing_by exact Scanner.remaining_next_lt _next

/-- Executes the statements of a plain dump. -/
def loadStatements (s : Session) (options : Options) (format : Dump.Format) : Work Stats := do
  let content ← Work.onPath options.path (.file (.read options.path))
  let totalBytes ←
    if format.compression.isCompressed then pure none
    else some <$> Work.onPath options.path (.file (.size options.path))
  let codec ← Codec.choose format.compression options.external
  let demand := Codec.Demand.buffered (Sizing.bufferSize totalBytes)
  let source ← codec.read demand (content.behind options.resumeOffset)
  let scanner := Scanner.ofSource source
    { name := options.path, limit := options.statementLimit }
    options.resumeOffset options.resumeDelimiter
  let size := options.batchSize.getD (Sizing.batchSize totalBytes)
  let course : Course :=
    { batches := .ofSize s options.database size options.policy
      passesOver := fun sql =>
        options.renameFrom.any fun origin =>
          origin != options.database && Rename.names origin sql
      totalBytes }
  let (scanner, progress) ← course.loadAll scanner {}
  let (answer, batches) ← Work.ofJob (progress.batches.flush course.batches)
  Work.ofResult answer
  course.report scanner.position batches.executed
  pure
    { executed := batches.executed
      skipped := progress.skipped
      bytesRead := scanner.position
      totalBytes
      endOffset := progress.endOffset
      delimiter := scanner.delimiter.bytes
      errors := batches.errors
      format }

/-- Loads a dump into a database. -/
def dump (s : Session) (options : Options) : Work Stats := do
  let format ← Dump.detect options.path options.compression
  if options.createDatabase then s.call (.execute (Sql.createDatabase options.database))
  match format.kind with
  | .archive => do
      options.restorer.restore options.path options.database
      pure { format }
  | .plain =>
      if options.resumeOffset > 0 && format.compression.isCompressed then
        .fail (.resumeUnsupported options.path)
      else do
        s.call (.useDatabase options.database)
        withoutChecks s (loadStatements s options format)

end SqlBackup.Load
