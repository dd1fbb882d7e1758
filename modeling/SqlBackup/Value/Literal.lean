import SqlBackup.Sql.Quoting
import SqlBackup.Value.Basic

/-!
# Literals of values

How a value is written in an INSERT statement. Text goes in quotes, but in hexadecimal when it
holds a control byte other than a tab or a line end, and so do bytes that are no text.
-/
namespace SqlBackup.Value

/-- A control byte that must not stand in a quoted string. -/
def isControl (b : UInt8) : Bool :=
  (b < 0x20 && b != 0x0A && b != 0x0D && b != 0x09) || b == 0x7F

/-- The literal of bytes that may be text. -/
def bytesLiteral (bytes : List UInt8) : String :=
  if bytes.any isControl then Sql.quoteBytes bytes
  else
    match Text.Utf8.decode? bytes with
    | some s => Sql.quoteString s
    | none => Sql.quoteBytes bytes

/-- The literal of a value. Numbers that are not finite have none and are written as nulls. -/
def literal : Value → String
  | null => "NULL"
  | bool b => Sql.boolLiteral b
  | int i => toString i
  | uint n => toString n
  | float x => if x.isFinite then x.text else "NULL"
  | decimal s => s
  | text s => bytesLiteral (Text.Utf8.encode s)
  | bytes b => bytesLiteral b
  | date d => Sql.quoteString d.text
  | timestamp d t => Sql.quoteString (timestampText d t)

/-- The literals of a row in parentheses. -/
def rowLiteral (row : List Value) : String :=
  "(" ++ ", ".intercalate (row.map literal) ++ ")"

end SqlBackup.Value
