import SqlBackup.Compression

/-!
# Formats of a dump

A dump is a text of statements or an archive that only another program can restore. What a caller
says goes first, then the mark of an archive, the name of the file, and its first bytes.
-/
namespace SqlBackup.Dump

/-- How a dump is loaded. -/
inductive Kind where
  /-- Statement by statement. -/
  | plain
  /-- By an outside program. -/
  | archive
  deriving DecidableEq, Inhabited

structure Format where
  compression : Compression
  kind : Kind
  deriving DecidableEq, Inhabited

/-- The first bytes of an archive. -/
def archiveMagic : List UInt8 := [0x50, 0x47, 0x44, 0x4D, 0x50]

/-- How many bytes of a file tell its format. -/
def headerLength : Nat := 8

/-- The format of a file of this name with these first bytes. -/
def Format.ofHeader (path : String) (header : List UInt8) : Format :=
  if archiveMagic.isPrefixOf header then ⟨.none, .archive⟩
  else
    match Compression.ofPath path with
    | .none => ⟨(Compression.sniff? header).getD .none, .plain⟩
    | c => ⟨c, .plain⟩

end SqlBackup.Dump
