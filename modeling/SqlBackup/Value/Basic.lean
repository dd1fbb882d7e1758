import SqlBackup.Calendar.Date
import SqlBackup.Number.Binary64
import SqlBackup.Text.Utf8

/-!
# Column values

The values that a query returns, with the text form that names and settings are read from.
-/
namespace SqlBackup

/-- The value of one column of one row. -/
inductive Value where
  | null
  | bool (b : Bool)
  | int (i : Int)
  | uint (n : Nat)
  | float (x : Number.Binary64)
  /-- An exact number in its written form. -/
  | decimal (text : String)
  | text (s : String)
  | bytes (b : List UInt8)
  | date (d : Calendar.Date)
  | timestamp (d : Calendar.Date) (t : Calendar.Time)
  deriving DecidableEq, Inhabited

namespace Value

def isNull : Value → Bool
  | null => true
  | _ => false

/-- A date and a time with a blank between them. -/
def timestampText (d : Calendar.Date) (t : Calendar.Time) : String := d.text ++ " " ++ t.text

/-- The value as text; a null and bytes that are no text have none. -/
def asText? : Value → Option String
  | null => none
  | bool b => some (if b then "1" else "0")
  | int i => some (toString i)
  | uint n => some (toString n)
  | float x => some x.text
  | decimal s => some s
  | text s => some s
  | bytes b => Text.Utf8.decode? b
  | date d => some d.text
  | timestamp d t => some (timestampText d t)

end Value

/-- The rows that a query returned. -/
structure QueryResult where
  columns : List String
  rows : List (List Value)
  deriving DecidableEq, Inhabited

namespace QueryResult

def empty : QueryResult := ⟨[], []⟩

def isEmpty (r : QueryResult) : Bool := r.rows.isEmpty

/-- The texts of the first column, without the rows that have none there. -/
def firstColumn (r : QueryResult) : List String :=
  r.rows.filterMap fun row => row.head?.bind Value.asText?

/-- One value, if the result is that large. -/
def cell? (r : QueryResult) (row column : Nat) : Option Value :=
  r.rows[row]?.bind (·[column]?)

/-- The text of one value. -/
def cellText? (r : QueryResult) (row column : Nat) : Option String :=
  (r.cell? row column).bind Value.asText?

end QueryResult

end SqlBackup
