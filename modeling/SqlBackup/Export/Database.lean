import SqlBackup.Export.Table
import SqlBackup.Sizing
import SqlBackup.TableFilter

/-!
# The export of a database

An export reads a database inside one snapshot and writes it as a dump. The file is opened only
when all that the dump depends on is known. After a failure there is no file.
-/
namespace SqlBackup.Export

/-- What is exported, where to, and how. -/
structure Options where
  path : String
  database : String
  /-- The tables to export in this order; none stand for all. -/
  tables : List String := []
  /-- The patterns of tables that are left out. -/
  exclude : List String := []
  table : TableOptions := {}
  bufferSize : Nat := Sizing.mebibyte
  flushThreshold : Nat := 4 * Sizing.mebibyte
  compression : Compression := .none
  /-- Whether an outside program is preferred as codec. -/
  external : Bool := false
  /-- The session variables whose values the dump sets. -/
  saved : List String := []
  /-- Whether all tables are read inside one snapshot. -/
  snapshot : Bool := true
  encoders : Codec.Encoders := {}
  deriving Inhabited

/-- What an export did. -/
structure Stats where
  tables : Nat
  rows : Nat
  /-- The bytes of text, before compression. -/
  bytesWritten : Nat
  /-- The bytes of the file. -/
  fileSize : Nat
  compression : Compression
  deriving DecidableEq, Inhabited

/-- The statement that gives a session variable the value that it has. The value keeps its type,
so that numbers stay without quotes. -/
def savedVariable (s : Session) (name : String) : Work String := do
  let result ← s.call (.query (Sql.readVariable name))
  pure (Sql.setVariable name ((result.cell? 0 0).elim "NULL" Value.literal))

/-- The statements for session variables, in their order. -/
def savedVariables (s : Session) : List String → Work (List String)
  | [] => pure []
  | name :: names => do
      let statement ← savedVariable s name
      let statements ← savedVariables s names
      pure (statement :: statements)

/-- Writes tables, the first of which has this number, and tells how many rows there are. -/
def exportTables (s : Session) (options : Options) (total : Nat) :
    Nat → List String → Outlet → Work (Nat × Outlet)
  | _, [], out => pure (0, out)
  | index, table :: tables, out => do
      let (rows, out) ← exportTable s options.table options.database table out
      Work.tell (.table options.database table index total rows)
      let (others, out) ← exportTables s options total (index + 1) tables out
      pure (rows + others, out)

/-- Opens the file of a dump. -/
def openOutlet (options : Options) : Work Outlet := do
  Work.onPath options.path (.file (.create options.path))
  let codec ← Codec.choose options.compression options.external
  let writer ← Codec.Writer.ofCodec options.path codec options.encoders
  pure ⟨options.path, .ofSizes options.bufferSize options.flushThreshold, writer⟩

/-- Writes the dump of the session's current database. -/
def writeDump (s : Session) (options : Options) : Work Stats := do
  let available ← s.call (.query (Sql.listTables options.database))
  let filter ← Work.ofResult (TableFilter.ofPatterns options.tables options.exclude)
  let tables ← Work.ofResult (filter.select available.firstColumn)
  let saved ← savedVariables s options.saved
  let out ← openOutlet options
  let now ← Work.ofJob (.request .now)
  let out ← out.putAll (Dump.provenance s.product s.version options.database now)
  let out ← out.putAll ((saved ++ Sql.prologue).map .statement)
  let (rows, out) ← exportTables s options tables.length 1 tables out
  let out ← out.putAll Dump.ending
  out.finish
  pure ⟨tables.length, rows, out.buffer.written, 0, options.compression⟩

/-- Executes statements up to the first that fails. -/
def executeAll (s : Session) : List String → Work Unit
  | [] => pure ()
  | sql :: statements => do
      s.call (.execute sql)
      executeAll s statements

/-- Executes all statements, whichever of them fail. -/
def attemptAll (s : Session) : List String → Job Unit
  | [] => pure ()
  | sql :: statements => do
      let _ ← Job.request (.session s (.execute sql))
      attemptAll s statements

/-- Writes the dump inside a snapshot, if one is asked for. The snapshot is let go however the
dump went. -/
def writeConsistently (s : Session) (options : Options) : Work Stats := do
  s.call (.useDatabase options.database)
  if options.snapshot then
    executeAll s Sql.beginSnapshot
    let result ← (writeDump s options).outcome
    Work.ofJob (attemptAll s Sql.endSnapshot)
    Work.ofResult result
  else writeDump s options

/-- Removes what is at a path, if something is. -/
def discard (path : String) : Job Unit := do
  match ← Job.file (.kind path) with
  | none => pure ()
  | some _ =>
      let _ ← Job.file (.remove path)
      pure ()

/-- Exports a database. -/
def database (s : Session) (options : Options) : Work Stats := do
  match ← (writeConsistently s options).outcome with
  | .ok stats => do
      let fileSize ← Work.onPath options.path (.file (.size options.path))
      pure { stats with fileSize }
  | .error fault => do
      Work.ofJob (discard options.path)
      .fail fault

end SqlBackup.Export
