import SqlBackup.Text.Hex

/-!
# Quoted names, strings and bytes

The three ways in which text goes into a statement of the server's language: a name in backticks,
a string in single quotes with escapes, and bytes in hexadecimal.
-/
namespace SqlBackup.Sql

/-- A character of a name, a backtick twice. -/
def nameChar (c : Char) : List Char := if c == '`' then ['`', '`'] else [c]

theorem nameChar_backtick : nameChar '\x60' = ['\x60', '\x60'] := rfl

theorem nameChar_of_ne {c : Char} (hc : c ≠ '\x60') : nameChar c = [c] :=
  if_neg (by simpa using hc)

theorem head?_nameChar (c : Char) (rest : List Char) : (nameChar c ++ rest).head? = some c := by
  by_cases hc : c = '\x60'
  · rw [hc]
    rfl
  · rw [nameChar_of_ne hc]
    rfl

/-- The backticks in a name are told from each other: no two names are written in the same way. -/
theorem flatMap_nameChar_inj {cs ds : List Char} (h : cs.flatMap nameChar = ds.flatMap nameChar) :
    cs = ds := by
  induction cs generalizing ds with
  | nil =>
    cases ds with
    | nil => rfl
    | cons d ds =>
      have hnone := congrArg List.head? h
      rw [List.flatMap_cons, head?_nameChar] at hnone
      cases hnone
  | cons c cs ih =>
    have hsame := congrArg List.head? h
    rw [List.flatMap_cons, head?_nameChar] at hsame
    cases ds with
    | nil => cases hsame
    | cons d ds =>
      rw [List.flatMap_cons, head?_nameChar] at hsame
      cases hsame
      rw [List.flatMap_cons, List.flatMap_cons] at h
      rw [ih (List.append_cancel_left h)]

/-- A name of a database, table or column. -/
def quoteName (name : String) : String :=
  String.ofList ('`' :: name.toList.flatMap nameChar ++ ['`'])

/-- A character of a string, with a backslash before what would end or distort it. -/
def stringChar (c : Char) : List Char :=
  if c == '\x00' then ['\\', '0']
  else if c == '\n' then ['\\', 'n']
  else if c == '\r' then ['\\', 'r']
  else if c == '\x1a' then ['\\', 'Z']
  else if c == '\\' || c == '\'' || c == '"' then ['\\', c]
  else [c]

/-- A string. -/
def quoteString (s : String) : String :=
  String.ofList ('\'' :: s.toList.flatMap stringChar ++ ['\''])

/-- Bytes, as two digits each. No bytes are the empty string. -/
def quoteBytes (bytes : List UInt8) : String :=
  if bytes.isEmpty then "''" else "0x" ++ Text.Hex.upper bytes

/-- A truth value. -/
def boolLiteral (b : Bool) : String := if b then "1" else "0"

end SqlBackup.Sql
