import SqlBackup.Fault
import SqlBackup.Files.Path

/-!
# Kinds of compression

A dump is plain text or compressed in one of three ways. A kind is told by a name that a caller
gives, by the end of a file's name, or by the first bytes of a file.
-/
namespace SqlBackup

/-- How a dump is compressed. -/
inductive Compression where
  | none
  | gzip
  | xz
  | zstd
  deriving DecidableEq, Inhabited

namespace Compression

/-- What follows `.sql` in the name of a dump. -/
def suffix : Compression → String
  | none => ""
  | gzip => ".gz"
  | xz => ".xz"
  | zstd => ".zst"

/-- The name that a backup records. -/
def key : Compression → String
  | none => ""
  | gzip => "gzip"
  | xz => "xz"
  | zstd => "zstd"

/-- The name that a reader is shown. -/
def name : Compression → String
  | none => "none"
  | c => c.key

/-- The outside program that compresses so. -/
def program? : Compression → Option String
  | none => Option.none
  | c => some c.key

def isCompressed (c : Compression) : Bool := c != none

/-- The kind with this recorded name. -/
def ofKey? (key : String) : Option Compression :=
  [none, gzip, xz, zstd].find? (·.key == key)

@[simp] theorem ofKey?_key (c : Compression) : ofKey? c.key = some c := by cases c <;> decide

/-- A text with the ASCII capitals made small. -/
def small (s : String) : String := String.ofList (s.toList.map Char.toLower)

/-- Reads a name as a caller writes it. -/
def parse (text : String) : Except Fault Compression :=
  let name := small (Text.trim text)
  if name == "" || name == "none" then .ok none
  else if name == "gzip" || name == "gz" then .ok gzip
  else if name == "xz" then .ok xz
  else if name == "zstd" || name == "zst" then .ok zstd
  else
    .error (.invalidOptions
      ("Unknown compression '" ++ name ++ "' (expected gzip, xz, zstd or none)"))

/-- The kind that the name of a file tells. -/
def ofPath (path : String) : Compression :=
  match Files.Path.fileName? path with
  | Option.none => none
  | some file =>
      let name := small file
      if name.endsWith ".gz" || name.endsWith ".gzip" then gzip
      else if name.endsWith ".xz" then xz
      else if name.endsWith ".zst" || name.endsWith ".zstd" then zstd
      else none

/-- The bytes that a file of this kind starts with. -/
def magic : Compression → List UInt8
  | none => []
  | gzip => [0x1F, 0x8B]
  | xz => [0xFD, 0x37, 0x7A, 0x58, 0x5A, 0x00]
  | zstd => [0x28, 0xB5, 0x2F, 0xFD]

/-- The kind that the first bytes of a file tell. -/
def sniff? (header : List UInt8) : Option Compression :=
  [gzip, xz, zstd].find? fun c => c.magic.isPrefixOf header

end Compression

end SqlBackup
