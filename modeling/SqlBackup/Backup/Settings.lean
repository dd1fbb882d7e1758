import SqlBackup.Codec.Writing
import SqlBackup.Files.Path
import SqlBackup.Job
import SqlBackup.Scan.Scanner
import SqlBackup.Sizing

/-!
# Settings of backups

All backups below one root are made and restored with the same settings, some of which a single
request can override.
-/
namespace SqlBackup.Backup

/-- Where backups are kept, and how they are made. -/
structure Settings where
  /-- The directory that holds one directory for each backup. -/
  root : String
  /-- How long the server may take to show that it is alive. -/
  livenessLimit : Calendar.Duration := .ofMillis 5000
  compression : Compression := Compression.gzip
  /-- How many databases are worked on at a time: none stands for one, and a number below it for
  as many as there are processors. -/
  parallelism : Int := 0
  /-- The rows of a statement of a dump. -/
  batchRows : Nat := 1000
  /-- The rows read at a time. -/
  fetchSize : Nat := 10000
  /-- The most bytes that a statement of a dump may have. -/
  statementLimit : Nat := Scan.defaultLimit
  /-- Whether outside programs are preferred as codecs. -/
  external : Bool := false
  processors : Nat := 1
  encoders : Codec.Encoders := {}
  deriving Inhabited

namespace Settings

/-- The directory of a backup. -/
def directory (settings : Settings) (id : String) : String :=
  Files.Path.join settings.root id

/-- How many of some jobs run at a time. -/
def width (settings : Settings) (requested : Option Int) (jobs : Nat) : Nat :=
  Sizing.workers (requested.getD settings.parallelism) jobs settings.processors

/-- A session whose server has shown that it is alive. -/
def connect (settings : Settings) : Work Session := do
  let s ← Work.acquire
  s.checkAlive settings.livenessLimit
  pure s

end Settings

end SqlBackup.Backup
