import SqlBackup.Backup.Settings
import SqlBackup.Manifest.Storage

/-!
# The backups below a root

A backup counts as there once its directory holds a manifest. Its name is looked at before it
becomes part of a path, so that it cannot lead out of the root.
-/
namespace SqlBackup.Backup

/-- Whether a character may stand in the name of a backup. -/
def isNameChar (c : Char) : Bool := c.isAlphanum || c == '-' || c == '_' || c == '.'

/-- Whether a text can name a backup. -/
def isName (id : String) : Bool :=
  match id.toList with
  | [] => false
  | c :: cs => c != '.' && (c :: cs).all isNameChar

/-- Refuses what can name no backup. -/
def requireName (id : String) : Except Fault Unit :=
  if isName id then .ok ()
  else .error (.invalidOptions ("Invalid backup id '" ++ id ++ "'"))

/-- What a path names. -/
def kindOf (path : String) : Work (Option Files.Kind) := Work.ofJob (.file (.kind path))

/-- The manifest of a backup. -/
def get (settings : Settings) (id : String) : Work Manifest := do
  Work.ofResult (requireName id)
  let directory := settings.directory id
  if (← kindOf (Manifest.pathIn directory)) == some .file then Manifest.read directory
  else .fail (.backupNotFound id)

/-- Removes the directory of a backup, whether or not the backup is complete. -/
def delete (settings : Settings) (id : String) : Work Unit := do
  Work.ofResult (requireName id)
  let directory := settings.directory id
  if (← kindOf directory) == some .directory then
    Work.onPath directory (.file (.removeTree directory))
  else .fail (.backupNotFound id)

/-- The manifest of a directory, if it has one that can be read. -/
def find? (directory : String) : Work (Option Manifest) := do
  if (← kindOf directory) == some .directory then
    if (← kindOf (Manifest.pathIn directory)) == some .file then
      match ← (Manifest.read directory).outcome with
      | .ok manifest => pure (some manifest)
      | .error _ => pure none
    else pure none
  else pure none

/-- The manifests of the directories that have one. -/
def findAll (settings : Settings) : List String → Work (List Manifest)
  | [] => pure []
  | name :: names => do
      let found ← find? (settings.directory name)
      let others ← findAll settings names
      pure (found.toList ++ others)

/-- Whether a backup goes before another: the newer one, and of two at the same time the one whose
name is greater. -/
def precedes (a b : Manifest) : Bool :=
  if a.timestamp = b.timestamp then decide (b.id ≤ a.id)
  else if a.timestamp.seconds = b.timestamp.seconds then
    decide (b.timestamp.nanos ≤ a.timestamp.nanos)
  else decide (b.timestamp.seconds ≤ a.timestamp.seconds)

/-- The backups below the root, the newest first. -/
def list (settings : Settings) : Work (List Manifest) := do
  if (← kindOf settings.root) == some .directory then
    let names ← Work.onPath settings.root (.file (.list settings.root))
    let found ← findAll settings names
    pure (found.mergeSort precedes)
  else pure []

end SqlBackup.Backup
