/-!
# Writing JSON

Values are written over several lines, two blanks deeper at each level.
-/
namespace SqlBackup.Json

/-- A digit in base 16, in small letters. -/
def hexDigit (n : Nat) : Char := if n < 10 then Char.ofNat (48 + n) else Char.ofNat (87 + n)

/-- A character of a text. Quotation marks, backslashes and control characters are escaped. -/
def escapedChar (c : Char) : List Char :=
  if c == '"' then ['\\', '"']
  else if c == '\\' then ['\\', '\\']
  else if c == '\x08' then ['\\', 'b']
  else if c == '\x0c' then ['\\', 'f']
  else if c == '\n' then ['\\', 'n']
  else if c == '\r' then ['\\', 'r']
  else if c == '\t' then ['\\', 't']
  else if c.toNat < 0x20 then
    ['\\', 'u', '0', '0', hexDigit (c.toNat / 16), hexDigit (c.toNat % 16)]
  else [c]

/-- A text. -/
def quoted (s : String) : String := String.ofList ('"' :: s.toList.flatMap escapedChar ++ ['"'])

/-- The blanks in front of a line at this depth. -/
def indentation (depth : Nat) : String := String.ofList (List.replicate (2 * depth) ' ')

/-- Lines between brackets, each with its own blanks. -/
def block (depth : Nat) (left right : String) (lines : List String) : String :=
  if lines.isEmpty then left ++ right
  else
    left ++ "\n" ++ ",\n".intercalate (lines.map (indentation (depth + 1) ++ ·)) ++ "\n" ++
      indentation depth ++ right

/-- An array of written values. -/
def arrayText (depth : Nat) (values : List String) : String := block depth "[" "]" values

/-- An object of keys and written values. -/
def objectText (depth : Nat) (members : List (String × String)) : String :=
  block depth "\x7b" "\x7d" (members.map fun m => quoted m.1 ++ ": " ++ m.2)

/-- A member that is left out where there is no value. -/
def optionalMember (key : String) (value : Option String) : List (String × String) :=
  match value with
  | none => []
  | some s => [(key, quoted s)]

end SqlBackup.Json
