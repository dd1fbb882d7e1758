import SqlBackup.Calendar.Instant
import SqlBackup.Sql.Statements
import SqlBackup.Text.Utf8
import SqlBackup.Value.Literal

/-!
# What a dump consists of

A dump is a sequence of pieces: lines for a reader, which are blank or comments, and statements.
Here is what the pieces say; when they are written is a matter of the export.
-/
namespace SqlBackup.Dump

/-- A piece of a dump. -/
inductive Piece where
  /-- A line that says nothing to the server. -/
  | line (text : String)
  | statement (sql : String)
  deriving DecidableEq, Inhabited

namespace Piece

/-- A piece as it is written. -/
def text : Piece → String
  | line text => text ++ "\n"
  | statement sql => sql ++ ";\n"

def bytes (p : Piece) : List UInt8 := Text.Utf8.encode p.text

/-- The statement that a piece is. -/
def sql? : Piece → Option String
  | line _ => none
  | statement sql => some sql

end Piece

/-- The version of the format, which the first line tells. -/
def formatVersion : String := "0.4.0"

/-- The lines that tell where a dump comes from. -/
def provenance (product version database : String) (created : Calendar.Instant) : List Piece :=
  [.line ("-- dbkit SQL dump " ++ formatVersion),
    .line ("-- Server: " ++ product ++ " " ++ version),
    .line ("-- Database: " ++ database),
    .line ("-- Created: " ++ created.text "+00:00"),
    .line ""]

/-- What stands in front of the rows of a table but for its creation. -/
def structureHeading (table : String) (dropFirst : Bool) : List Piece :=
  [.line "", .line ("-- Table structure for " ++ Sql.quoteName table)] ++
    if dropFirst then [.statement (Sql.dropTable table)] else []

def dataHeading (table : String) : List Piece :=
  [.line "", .line ("-- Data for " ++ Sql.quoteName table)]

/-- The start of a statement that inserts rows. -/
def insertHead (table : String) (columns : List String) : String :=
  "INSERT INTO " ++ Sql.quoteName table ++
    (if columns.isEmpty then "" else " (" ++ ", ".intercalate (columns.map Sql.quoteName) ++ ")") ++
    " VALUES\n"

/-- The statement that inserts some rows. -/
def insert (table : String) (columns : List String) (rows : List (List Value)) : Piece :=
  .statement (insertHead table columns ++ ",\n".intercalate (rows.map Value.rowLiteral))

/-- Cuts a list into parts of this length, but for the last. -/
def chunks {α : Type} (size : Nat) (xs : List α) : List (List α) :=
  if _none : xs = [] ∨ size = 0 then []
  else xs.take size :: chunks size (xs.drop size)
termination_by xs.length
decreasing_by
  have := List.length_pos_iff.mpr fun h => _none (.inl h)
  simp only [List.length_drop]
  omega

/-- The first part is as long as it may be, and the others are those of the rest. -/
theorem chunks_eq {α : Type} {size : Nat} (hsize : 0 < size) {xs : List α} (hxs : xs ≠ []) :
    chunks size xs = xs.take size :: chunks size (xs.drop size) := by
  rw [chunks, dif_neg]
  simp only [not_or]
  exact ⟨hxs, Nat.ne_of_gt hsize⟩

theorem chunks_nil {α : Type} (size : Nat) : chunks size ([] : List α) = [] := by
  rw [chunks, dif_pos (.inl rfl)]

theorem flatten_chunks {α : Type} {size : Nat} (h : 0 < size) (xs : List α) :
    (chunks size xs).flatten = xs := by
  fun_induction chunks size xs with
  | case1 xs none => rcases none with rfl | none <;> simp_all
  | case2 xs none ih => simp [ih]

/-- The statements that insert the rows of a page, so many at a time. -/
def inserts (table : String) (size : Nat) (page : QueryResult) : List Piece :=
  (chunks size page.rows).map (insert table page.columns)

/-- What ends a dump. -/
def ending : List Piece := .line "" :: Sql.epilogue.map .statement

end SqlBackup.Dump
