import SqlBackup.Text.Hidden
import SqlBackup.Text.Hex

/-!
# Texts in quotation marks

A report that shows a foreign text puts it into quotation marks. The marks and backslashes inside
are escaped, a few control characters have names, and what is not shown by itself is written by
number.
-/
namespace SqlBackup.Text

/-- The digits of a number in base 16. -/
def hexDigits (n : Nat) : String := String.ofList (Nat.toDigits 16 n)

/-- A character as it stands between quotation marks. -/
def quotedChar (c : Char) : String :=
  if c == '\x00' then "\\0"
  else if c == '\t' then "\\t"
  else if c == '\n' then "\\n"
  else if c == '\r' then "\\r"
  else if c == '\\' || c == '"' then "\\" ++ String.singleton c
  else if isHidden c then "\\u\x7b" ++ hexDigits c.toNat ++ "\x7d"
  else String.singleton c

/-- A text in quotation marks. -/
def quoted (s : String) : String :=
  "\"" ++ String.join (s.toList.map quotedChar) ++ "\""

end SqlBackup.Text
