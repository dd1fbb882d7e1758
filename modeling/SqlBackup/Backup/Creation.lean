import SqlBackup.Backup.Catalogue
import SqlBackup.Export.Database
import SqlBackup.Plan

/-!
# Making a backup

A backup gets a directory of its own. Its databases are exported side by side, each on its own
session, and the manifest is written last. After a failure the directory is gone.
-/
namespace SqlBackup.Backup

/-- What is backed up, and how. What is not said is taken from the settings. -/
structure Request where
  /-- The databases in the order in which they are recorded; none stand for all. -/
  databases : List String := []
  compression : Option Compression := none
  parallelism : Option Int := none
  /-- The patterns of tables that are left out of every database. -/
  exclude : List String := []
  structureOnly : Bool := false
  profile : Option String := none
  description : Option String := none
  deriving DecidableEq, Inhabited

/-- The databases to back up, each once. Those of the server itself are never meant by all. -/
def chooseDatabases (s : Session) (requested : List String) : Work (List String) :=
  if requested.isEmpty then do
    let result ← s.call (.query Sql.listDatabases)
    pure (result.firstColumn.filter fun database => !Sql.systemDatabases.contains database)
  else pure requested.eraseDups

/-- The `n`-th name that a backup made at this time may get. -/
def numbered (stamp : String) (n : Nat) : String :=
  if n = 0 then stamp else stamp ++ "-" ++ toString n

/-- How many names are tried. A number has 32 bits. -/
def nameTrials : Nat := 4294967296

/-- Makes a directory under the first name that is free, from the `n`-th on. -/
def claim (settings : Settings) (stamp : String) : Nat → Nat → Work String
  | 0, n =>
      .fail (.io (settings.directory (numbered stamp n)) (.os .alreadyExists))
  | trials + 1, n => do
      let directory := settings.directory (numbered stamp n)
      match ← Work.ofJob (.file (.makeDirectory directory)) with
      | .ok () => pure (numbered stamp n)
      | .error (.os .alreadyExists) => claim settings stamp trials (n + 1)
      | .error cause => .fail (.io directory cause)

/-- A fresh directory below the root for a backup made at this time, named as the backup is. -/
def allocate (settings : Settings) (timestamp : Calendar.Instant) : Work String := do
  Work.onPath settings.root (.file (.makeDirectories settings.root))
  claim settings timestamp.compact nameTrials 0

/-- The name of the dump of a database. -/
def dumpName (database : String) (compression : Compression) : String :=
  database ++ ".sql" ++ compression.suffix

/-- How a database is exported for a backup. -/
def exportOptions (settings : Settings) (request : Request) (compression : Compression)
    (directory database : String) : Export.Options :=
  { path := Files.Path.join directory (dumpName database compression)
    database
    exclude := request.exclude
    table :=
      { batchRows := settings.batchRows
        fetchSize := settings.fetchSize
        structureOnly := request.structureOnly }
    compression
    external := settings.external
    encoders := settings.encoders }

/-- Exports the `index`-th of `total` databases on a session of its own. -/
def exportOne (options : Export.Options) (index total : Nat) : Work Manifest.File := do
  Work.tell (.started options.database index total)
  let s ← Work.acquire
  let stats ← Export.database s options
  let checksum ← Dump.digest options.path
  Work.tell (.finished options.database)
  pure
    { database := options.database
      filename := dumpName options.database options.compression
      size := stats.fileSize
      tables := stats.tables
      rows := stats.rows
      checksum := some checksum }

/-- Removes a directory if the work that fills it fails. -/
def orRemove {α : Type} (directory : String) (work : Work α) : Work α := do
  match ← work.outcome with
  | .ok a => pure a
  | .error fault => do
      let _ ← Work.ofJob (.file (.removeTree directory))
      .fail fault

/-- A backup that has its directory, before its manifest is written. -/
structure Draft where
  id : String
  timestamp : Calendar.Instant
  databases : List String
  compression : Compression
  session : Session
  deriving Inhabited

/-- The manifest of a backup that consists of these dumps. -/
def Draft.manifest (draft : Draft) (request : Request) (files : List Manifest.File) : Manifest :=
  { id := draft.id
    timestamp := draft.timestamp
    databases := draft.databases
    files
    totalSize := (files.map (·.size)).foldr (· + ·) 0
    compression := draft.compression
    serverVersion := draft.session.version
    serverType := draft.session.product
    profile := request.profile
    description := request.description }

/-- Checks the server, chooses the databases and makes the directory. -/
def prepare (settings : Settings) (request : Request) : Work Draft := do
  let session ← settings.connect
  let databases ← chooseDatabases session request.databases
  if databases.isEmpty then .fail (.invalidOptions "No databases to back up")
  else
    let timestamp ← Work.ofJob (.request .now)
    let id ← allocate settings timestamp
    let compression := request.compression.getD settings.compression
    pure { id, timestamp, databases, compression, session }

/-- The exports of a backup, in the order of its databases. -/
def exportJobs (settings : Settings) (request : Request) (draft : Draft) :
    List (Work Manifest.File) :=
  draft.databases.mapIdx fun i database =>
    let options :=
      exportOptions settings request draft.compression (settings.directory draft.id) database
    (exportOne options (i + 1) draft.databases.length).mapFault (.backupOf database)

/-- Writes the manifest, if every database was exported. -/
def conclude (settings : Settings) (request : Request) (draft : Draft)
    (outcomes : List (Pool.Outcome Fault Manifest.File)) : Work Manifest :=
  let directory := settings.directory draft.id
  orRemove directory do
    let files ← Work.ofResult (Pool.gather .backupOf draft.databases outcomes)
    let manifest := draft.manifest request files
    manifest.write directory
    pure manifest

/-- The plan of a backup. -/
def plan (settings : Settings) (request : Request) : Work (Plan Manifest.File Manifest) := do
  let draft ← prepare settings request
  pure
    { width := settings.width request.parallelism draft.databases.length
      jobs := exportJobs settings request draft
      conclude := conclude settings request draft }

/-- Makes a backup. -/
def create {σ : Type} (host : Host σ) (settings : Settings) (request : Request) (s : σ) :
    Except String (Except Fault Manifest) × σ :=
  Plan.carryOut host (plan settings request) s

end SqlBackup.Backup
