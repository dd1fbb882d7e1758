import SqlBackup.Calendar.Reading
import SqlBackup.Json.Record
import SqlBackup.Json.Writing
import SqlBackup.Manifest.Basic

/-!
# Manifests as text

A manifest is written as JSON. It is read leniently: fields may come in any order or as an array,
and what is unknown is passed over.
-/
namespace SqlBackup.Manifest

/-- A dump, two levels deep. -/
def File.text (f : File) : String :=
  Json.objectText 2 ([
    ("database", Json.quoted f.database),
    ("filename", Json.quoted f.filename),
    ("size", toString f.size),
    ("tables", toString f.tables),
    ("rows", toString f.rows)] ++ Json.optionalMember "checksum" f.checksum)

/-- The manifest as it is written. -/
def text (m : Manifest) : String :=
  Json.objectText 0 ([
    ("id", Json.quoted m.id),
    ("timestamp", Json.quoted (m.timestamp.text "Z")),
    ("databases", Json.arrayText 1 (m.databases.map Json.quoted)),
    ("files", Json.arrayText 1 (m.files.map File.text)),
    ("total_size", toString m.totalSize),
    ("compression", Json.quoted m.compression.key),
    ("server_version", Json.quoted m.serverVersion),
    ("server_type", Json.quoted m.serverType)] ++
    Json.optionalMember "profile" m.profile ++ Json.optionalMember "description" m.description)

/-- What has been read of a dump. -/
structure File.Draft where
  database : Option String := none
  filename : Option String := none
  size : Option Nat := none
  tables : Option Nat := none
  rows : Option Nat := none
  checksum : Option (Option String) := none
  deriving DecidableEq, Inhabited

/-- The fields of a dump. -/
def File.fields : List (Json.Field File.Draft) := [
  .of "database" (·.database) (fun d a => { d with database := some a }) Json.text,
  .of "filename" (·.filename) (fun d a => { d with filename := some a }) Json.text,
  .of "size" (·.size) (fun d a => { d with size := some a }) Json.natural,
  .of "tables" (·.tables) (fun d a => { d with tables := some a }) Json.natural,
  .of "rows" (·.rows) (fun d a => { d with rows := some a }) Json.natural,
  .of "checksum" (·.checksum) (fun d a => { d with checksum := some a })
    (Json.optional Json.text) true]

/-- The dump, if nothing that it needs is missing. -/
def File.Draft.build (d : File.Draft) : Option File := do
  some {
    database := ← d.database
    filename := ← d.filename
    size := ← d.size
    tables := ← d.tables
    rows := ← d.rows
    checksum := d.checksum.getD none }

/-- What has been read of a manifest. -/
structure Draft where
  id : Option String := none
  timestamp : Option Calendar.Instant := none
  databases : Option (List String) := none
  files : Option (List File) := none
  totalSize : Option Nat := none
  compression : Option Compression := none
  serverVersion : Option String := none
  serverType : Option String := none
  profile : Option (Option String) := none
  description : Option (Option String) := none
  deriving DecidableEq, Inhabited

/-- The fields of a manifest. -/
def fields : List (Json.Field Draft) := [
  .of "id" (·.id) (fun d a => { d with id := some a }) Json.text,
  .of "timestamp" (·.timestamp) (fun d a => { d with timestamp := some a })
    (Json.textWith Calendar.Instant.ofText?),
  .of "databases" (·.databases) (fun d a => { d with databases := some a })
    (Json.array Json.text),
  .of "files" (·.files) (fun d a => { d with files := some a })
    (Json.array (Json.record File.fields {} File.Draft.build)),
  .of "total_size" (·.totalSize) (fun d a => { d with totalSize := some a }) Json.natural,
  .of "compression" (·.compression) (fun d a => { d with compression := some a })
    (Json.name Compression.ofKey?),
  .of "server_version" (·.serverVersion) (fun d a => { d with serverVersion := some a }) Json.text,
  .of "server_type" (·.serverType) (fun d a => { d with serverType := some a }) Json.text,
  .of "profile" (·.profile) (fun d a => { d with profile := some a })
    (Json.optional Json.text) true,
  .of "description" (·.description) (fun d a => { d with description := some a })
    (Json.optional Json.text) true]

/-- The manifest, if nothing that it needs is missing. -/
def Draft.build (d : Draft) : Option Manifest := do
  some {
    id := ← d.id
    timestamp := ← d.timestamp
    databases := ← d.databases
    files := ← d.files
    totalSize := ← d.totalSize
    compression := ← d.compression
    serverVersion := ← d.serverVersion
    serverType := ← d.serverType
    profile := d.profile.getD none
    description := d.description.getD none }

/-- Reads a manifest. -/
def ofText (source : String) : Except ManifestFault Manifest :=
  Json.whole (Json.record fields {} Draft.build) source

end SqlBackup.Manifest
