import SqlBackup.Config.Environment

/-!
# Standard directories

Data and configuration are kept below directories that the environment names, or else below the
home of the user.
-/
namespace SqlBackup

/-- The directories of the program. -/
structure Directories where
  data : String
  config : String
  deriving DecidableEq, Inhabited

namespace Directories

/-- The name of the program's own directories. -/
def programName : String := "dbkit"

/-- The home of the user. -/
def home? (e : Environment) : Option (List UInt8) :=
  match e.bytes? "HOME" with
  | some [] => none
  | home => home

/-- The directory that a variable names. A blank text names none, and neither do bytes that are no
text, unless they are an absolute path. -/
def named? (e : Environment) (key : String) : Option (List UInt8) :=
  match e.bytes? key with
  | none => none
  | some bytes =>
      match Text.Utf8.decode? bytes with
      | some text =>
          if Text.trimChars text.toList = [] then none else some bytes
      | none => if bytes.head? = some 0x2F then some bytes else none

/-- A path below another, in bytes. -/
def below (base : List UInt8) (path : String) : List UInt8 :=
  if base.getLast? = some 0x2F then base ++ Text.Utf8.encode path
  else base ++ 0x2F :: Text.Utf8.encode path

/-- The directory of some kind that all programs share: the one that a variable names, or else the
one at a path below the home. -/
def shared (e : Environment) (kind key path : String) : Except ConfigFault String :=
  match (named? e key).or ((home? e).map (below · path)) with
  | none => .error (.missingDirectory kind)
  | some bytes =>
      match Text.Utf8.decode? bytes with
      | some text => .ok text
      | none => .error (.invalid ("Non UTF-8 directory: " ++ Text.Utf8.decodeLenient bytes))

/-- The directories of the program. -/
def ofEnvironment (e : Environment) : Except ConfigFault Directories := do
  let data ← shared e "data" "XDG_DATA_HOME" ".local/share"
  let config ← shared e "config" "XDG_CONFIG_HOME" ".config"
  pure ⟨Files.Path.join data programName, Files.Path.join config programName⟩

/-- Where backups are kept if nobody says otherwise. -/
def standardBackups (d : Directories) : String := Files.Path.join d.data "backups"

/-- Where backups are kept. -/
def backups (d : Directories) (c : Config) : String := c.backupsDirectory.getD d.standardBackups

end Directories

end SqlBackup
