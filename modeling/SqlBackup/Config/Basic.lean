import SqlBackup.Backup.Settings
import SqlBackup.Json.Writing

/-!
# Configuration

The configuration says where backups are kept and how they are made. What nobody has said has a
default, so that there always is one.
-/
namespace SqlBackup

structure Config where
  /-- The directory that holds the backups, if it is not the standard one. -/
  backupsDirectory : Option String := none
  /-- The compression as it was written. -/
  compression : String := "gzip"
  parallelism : Int := 0
  batchRows : Nat := 1000
  fetchSize : Nat := 10000
  statementLimit : Nat := Scan.defaultLimit
  external : Bool := false
  livenessSeconds : Nat := 5
  deriving DecidableEq, Inhabited

namespace Config

/-- The configuration as JSON. -/
def text (c : Config) : String :=
  Json.objectText 0 [
    ("backup", Json.objectText 1 (Json.optionalMember "backups-dir" c.backupsDirectory ++ [
      ("compression", Json.quoted c.compression),
      ("parallelism", toString c.parallelism),
      ("export-batch-rows", toString c.batchRows),
      ("fetch-size", toString c.fetchSize),
      ("max-statement-size", toString c.statementLimit),
      ("external-codecs", if c.external then "true" else "false")])),
    ("connection", Json.objectText 1 [
      ("liveness-timeout-secs", toString c.livenessSeconds)])]

/-- The settings of backups that a configuration stands for, below a root if it names none. -/
def settings (c : Config) (standardRoot : String) : Except Fault Backup.Settings := do
  let compression ← Compression.parse c.compression
  pure
    { root := c.backupsDirectory.getD standardRoot
      livenessLimit := .ofSeconds c.livenessSeconds
      compression
      parallelism := c.parallelism
      batchRows := c.batchRows
      fetchSize := c.fetchSize
      statementLimit := c.statementLimit
      external := c.external }

end Config

end SqlBackup
