import SqlBackup.Config.Document
import SqlBackup.Config.Environment
import SqlBackup.Dump.Inspect

/-!
# Loading the configuration

Defaults go last, then the configuration file, if there is one, and then the environment.
-/
namespace SqlBackup.Config

/-- The name of the configuration file. -/
def filename : String := "config.yaml"

/-- The configuration that a file says. -/
def readFile (path : String) : Work Config := do
  let bytes ← (Dump.bytesOf path).mapFault fun fault =>
    match fault with
    | .io _ cause => .config (.io cause.message)
    | fault => fault
  match Text.Utf8.decode? bytes with
  | none => .fail (.config (.io "stream did not contain valid UTF-8"))
  | some text =>
      match ofText? text with
      | some config => pure config
      | none => .fail (.config (.invalid ("Failed to parse " ++ path)))

/-- The configuration from a directory and the environment. -/
def load (directory : String) (e : Environment) : Work Config := do
  let path := Files.Path.join directory filename
  let config ←
    match ← Work.ofJob (.file (.kind path)) with
    | none => pure {}
    | some _ => readFile path
  Work.ofResult ((config.withEnvironment e).mapError .config)

end SqlBackup.Config
