import SqlBackup.Dump.Inspect
import SqlBackup.Manifest.Text

/-!
# Manifests in files

A manifest is first written under another name. Only when all of it is there does it get its own,
so that nobody reads half of one.
-/
namespace SqlBackup.Manifest

/-- The name of the file. -/
def filename : String := "metadata.json"

/-- The name that the file has while it is written. -/
def draftFilename : String := "metadata.json.tmp"

/-- Where the manifest of a directory is. -/
def pathIn (directory : String) : String := Files.Path.join directory filename

/-- Reads the manifest of a directory. -/
def read (directory : String) : Work Manifest := do
  let path := pathIn directory
  let bytes ← Dump.bytesOf path
  match Text.Utf8.decode? bytes with
  | none => .fail (.io path (.layer .invalidData "stream did not contain valid UTF-8"))
  | some source => Work.ofResult ((ofText source).mapError .manifest)

/-- Writes the manifest of a directory. -/
def write (m : Manifest) (directory : String) : Work Unit := do
  let draft := Files.Path.join directory draftFilename
  let path := pathIn directory
  Work.onPath draft (.file (.create draft))
  Work.onPath draft (.file (.append draft (Text.Utf8.encode m.text)))
  Work.onPath draft (.file (.sync draft))
  Work.onPath path (.file (.rename draft path))

end SqlBackup.Manifest
