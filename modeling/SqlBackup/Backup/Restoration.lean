import SqlBackup.Backup.Catalogue
import SqlBackup.Load.Dump
import SqlBackup.Plan

/-!
# Restoring a backup

Before the server is touched it is known that every dump asked for is there and has not changed.
The databases are then loaded side by side, each on its own session; what was loaded before a
failure stays.
-/
namespace SqlBackup.Backup

/-- What is restored, and how. -/
structure RestoreRequest where
  id : String
  /-- The databases to restore; none stand for all. -/
  databases : List String := []
  /-- The new names of the databases that get one. -/
  renames : List (String × String) := []
  /-- Whether a database is dropped before it is loaded. -/
  dropFirst : Bool := false
  parallelism : Option Int := none
  /-- Whether the dumps are compared with their digests. -/
  verifies : Bool := true
  policy : Load.Policy := fun _ => .abort

/-- What became of a database. -/
structure Restored where
  /-- The name that the backup records. -/
  source : String
  /-- The name that it was restored under. -/
  target : String
  stats : Load.Stats
  deriving Inhabited

/-- The dump of a database of a backup. -/
def requireFile (manifest : Manifest) (database : String) : Except Fault Manifest.File :=
  match manifest.file? database with
  | some file => .ok file
  | none =>
      .error (.invalidOptions
        ("Database '" ++ database ++ "' is not part of backup " ++ manifest.id))

/-- The dumps of the databases asked for, each once. -/
def chooseFiles (manifest : Manifest) (databases : List String) :
    Except Fault (List Manifest.File) :=
  if databases.isEmpty then .ok manifest.files
  else databases.eraseDups.mapM (requireFile manifest)

/-- Checks that a dump is there and has the digest recorded for it. -/
def verify (directory : String) (file : Manifest.File) : Work Unit := do
  let path := Files.Path.join directory file.filename
  if (← kindOf path) == some .file then
    match file.checksum with
    | none => pure ()
    | some expected => do
        let actual ← Dump.digest path
        if actual = expected then pure ()
        else .fail (.checksumMismatch path expected actual)
  else .fail (.io path (.layer .notFound "dump file missing"))

/-- Checks dumps up to the first that is not as recorded. -/
def verifyAll (directory : String) : List Manifest.File → Work Unit
  | [] => pure ()
  | file :: files => do
      (verify directory file).mapFault (.restoreOf file.database)
      verifyAll directory files

/-- The name that a database is restored under. -/
def targetOf (request : RestoreRequest) (database : String) : String :=
  (request.renames.lookup database).getD database

/-- How a dump of a backup is loaded. -/
def loadOptions (settings : Settings) (request : RestoreRequest) (manifest : Manifest)
    (file : Manifest.File) : Load.Options :=
  { path := Files.Path.join (settings.directory manifest.id) file.filename
    database := targetOf request file.database
    createDatabase := true
    renameFrom := some file.database
    compression := some manifest.compression
    external := settings.external
    statementLimit := settings.statementLimit
    policy := request.policy }

/-- The same work, told of in hundredths instead of bytes. -/
def inPercent {α : Type} (work : Work α) : Work α :=
  ExceptT.mk (work.run.mapEvents Progress.Event.inPercent)

/-- Restores the `index`-th of `total` databases on a session of its own. -/
def restoreOne (options : Load.Options) (source : String) (dropFirst : Bool)
    (index total : Nat) : Work Restored := do
  Work.tell (.started options.database index total)
  let s ← Work.acquire
  if dropFirst then s.call (.execute (Sql.dropDatabase options.database))
  let stats ← inPercent (Load.dump s options)
  Work.tell (.finished options.database)
  pure { source, target := options.database, stats }

/-- What is to be restored, once it is known to be there. -/
structure Selection where
  manifest : Manifest
  files : List Manifest.File
  deriving Inhabited

/-- Chooses the dumps and checks them. -/
def select (settings : Settings) (request : RestoreRequest) : Work Selection := do
  let manifest ← get settings request.id
  let files ← Work.ofResult (chooseFiles manifest request.databases)
  if request.verifies then verifyAll (settings.directory manifest.id) files
  pure { manifest, files }

/-- The loads of a restore, in the order of the dumps. -/
def restoreJobs (settings : Settings) (request : RestoreRequest) (selection : Selection) :
    List (Work Restored) :=
  selection.files.mapIdx fun i file =>
    let options := loadOptions settings request selection.manifest file
    (restoreOne options file.database request.dropFirst (i + 1) selection.files.length).mapFault
      (.restoreOf options.database)

/-- The plan of a restore. -/
def restorePlan (settings : Settings) (request : RestoreRequest) :
    Work (Plan Restored (List Restored)) := do
  let selection ← select settings request
  pure
    { width := settings.width request.parallelism selection.files.length
      jobs := restoreJobs settings request selection
      conclude := fun outcomes =>
        Work.ofResult (Pool.gather .restoreOf
          (selection.files.map fun file => targetOf request file.database) outcomes) }

/-- Restores a backup. -/
def restore {σ : Type} (host : Host σ) (settings : Settings) (request : RestoreRequest) (s : σ) :
    Except String (Except Fault (List Restored)) × σ :=
  Plan.carryOut host (restorePlan settings request) s

end SqlBackup.Backup
