import SqlBackup.Calendar.Instant
import SqlBackup.Compression

/-!
# Manifests

A manifest lists what a backup consists of. It is the last file of a backup to be written, so a
directory with a manifest holds a complete backup.
-/
namespace SqlBackup

/-- What a manifest says of one dump. -/
structure Manifest.File where
  database : String
  /-- The name of the file, below the directory of the backup. -/
  filename : String
  /-- The bytes of the file. -/
  size : Nat
  tables : Nat
  rows : Nat
  /-- The SHA-256 digest of the file. -/
  checksum : Option String
  deriving DecidableEq, Inhabited

/-- What a backup consists of. -/
structure Manifest where
  /-- The name of the backup, which is that of its directory. -/
  id : String
  timestamp : Calendar.Instant
  /-- The databases in the order that they were asked for. -/
  databases : List String
  /-- The dumps, in the order of the databases. -/
  files : List Manifest.File
  /-- The bytes of all dumps. -/
  totalSize : Nat
  compression : Compression
  serverVersion : String
  serverType : String
  profile : Option String
  description : Option String
  deriving DecidableEq, Inhabited

namespace Manifest

/-- The first dump of a database. -/
def file? (m : Manifest) (database : String) : Option File :=
  m.files.find? (·.database == database)

/-- The rows of all dumps, in 64 bits. -/
def totalRows (m : Manifest) : Nat := (m.files.map (·.rows)).foldr (· + ·) 0 % Nat.pow 2 64

/-- The units of sizes, each 1024 of the one before. -/
def sizeUnits : List String := ["KB", "MB", "GB", "TB"]

/-- The nearest number with 53 binary digits. Of two the one with an even last digit is taken. -/
def toPrecision (n : Nat) : Nat :=
  let unit := Nat.pow 2 (Nat.log2 n - 52)
  let low := n / unit
  let rest := 2 * (n % unit)
  (if rest < unit || (rest == unit && low % 2 == 0) then low else low + 1) * unit

/-- `numerator / denominator` in hundredths. A half goes to the even neighbour. -/
def hundredths (numerator denominator : Nat) : String :=
  let low := 100 * numerator / denominator
  let rest := 2 * (100 * numerator % denominator)
  let n := if rest < denominator || (rest == denominator && low % 2 == 0) then low else low + 1
  toString (n / 100) ++ "." ++ Number.padded 2 (n % 100)

/-- A number of bytes of at least `scale`, in the largest unit that it reaches. -/
def inUnits (bytes : Nat) : Nat → List String → String
  | _, [] => ""
  | scale, [unit] => hundredths bytes scale ++ " " ++ unit
  | scale, unit :: units =>
      if bytes < scale * 1024 then hundredths bytes scale ++ " " ++ unit
      else inUnits bytes (scale * 1024) units

/-- A number of bytes for a reader. -/
def sizeText (bytes : Nat) : String :=
  if bytes < 1024 then toString bytes ++ " B"
  else inUnits (toPrecision bytes) 1024 sizeUnits

end Manifest

end SqlBackup
