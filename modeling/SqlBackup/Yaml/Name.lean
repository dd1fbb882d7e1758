import SqlBackup.Number.Whole
import SqlBackup.Text.Utf8
import SqlBackup.Yaml.Place
import SqlBackup.Yaml.Token

/-!
# Names, tags and directives

The words of YAML that begin with a mark: `&` and `*` for names of nodes, `!` for their types, and
`%` for what is said of a document as a whole.
-/
namespace SqlBackup.Yaml

def isWordChar (c : Char) : Bool := c.isAlphanum || c == '_' || c == '-'

/-- The name behind `&` or `*`. -/
def name? (s : List Place) : Option (String × List Place) :=
  let (word, rest) := span isWordChar s
  let ended := atGap rest || (rest.head?.map Place.char).any "?:,]\x7d%@`".toList.contains
  if word.isEmpty || !ended then none else some (String.ofList word, rest)

/-- Whether a character may stand in a tag. Those of collections may only stand in full ones. -/
def isTagChar (full : Bool) (c : Char) : Bool :=
  isWordChar c || ";/?:@&=+$.%!~*'()".toList.contains c ||
    (full && (c == ',' || c == '[' || c == ']'))

/-- How many bytes a character has whose first byte is this one. -/
def widthOf? (byte : Nat) : Option Nat :=
  if byte < 0x80 then some 1
  else if 0xC0 ≤ byte && byte < 0xE0 then some 2
  else if 0xE0 ≤ byte && byte < 0xF0 then some 3
  else if 0xF0 ≤ byte && byte < 0xF8 then some 4
  else none

/-- The bytes that the characters of a tag stand for. A percent sign comes before the two digits of
a byte; `missing` bytes of a character are still to come. -/
def tagBytes (missing : Nat) : List Char → Option (List UInt8)
  | [] => if missing = 0 then some [] else none
  | '%' :: a :: b :: cs => do
      let byte ← Number.ofDigits? 16 [a, b]
      if missing = 0 then
        some (UInt8.ofNat byte :: (← tagBytes ((← widthOf? byte) - 1) cs))
      else if byte / 64 = 2 then some (UInt8.ofNat byte :: (← tagBytes (missing - 1) cs))
      else none
  | c :: cs =>
      if c == '%' || missing ≠ 0 then none
      else do some (UInt8.ofNat c.toNat :: (← tagBytes 0 cs))

/-- The text of a tag, and what follows it. -/
def tagText? (full : Bool) (s : List Place) : Option (String × List Place) := do
  let (chars, rest) := span (isTagChar full) s
  some (Text.Utf8.decodeLenient (← tagBytes 0 chars), rest)

/-- The short form at the start of a tag, from its `!` on. -/
def handle (s : List Place) : String × List Place :=
  let (word, rest) := span isWordChar s
  match rest with
  | p :: after =>
      if p.char == '!' then ("!" ++ String.ofList word ++ "!", after)
      else ("!" ++ String.ofList word, rest)
  | [] => ("!" ++ String.ofList word, [])

/-- The tag behind a `!`. -/
def tagBody? (s : List Place) : Option (Token × List Place) :=
  match s with
  | p :: after =>
      if p.char == '<' then do
        let (text, rest) ← tagText? true after
        match rest with
        | q :: rest => if q.char == '>' && text != "" then some (.tag "" text, rest) else none
        | [] => none
      else do
        let (short, rest) := handle s
        let (text, rest) ← tagText? false rest
        if short.length ≥ 2 && short.toList.getLast? == some '!' then
          if text == "" then none else some (.tag short text, rest)
        else
          let suffix := String.ofList (short.toList.drop 1) ++ text
          some (if suffix == "" then .tag "" "!" else .tag "!" suffix, rest)
  | [] => some (.tag "" "!", [])

/-- The tag behind a `!`, if it ends where it may. -/
def tag? (isFlow : Bool) (s : List Place) : Option (Token × List Place) := do
  let (token, rest) ← tagBody? s
  if atGap rest || (isFlow && (rest.head?.map Place.char) == some ',') then some (token, rest)
  else none

/-- A number of a version. -/
def versionPart? (s : List Place) : Option (Nat × List Place) :=
  let (digits, rest) := span Char.isDigit s
  if digits.isEmpty || digits.length > 9 then none
  else (Number.ofDigits? 10 digits).map fun n => (n, rest)

/-- What a version directive says. -/
def version? (s : List Place) : Option (Token × List Place) := do
  let (major, rest) ← versionPart? s
  match rest with
  | p :: rest =>
      if p.char == '.' then
        let (minor, rest) ← versionPart? rest
        some (.version major minor, rest)
      else none
  | [] => none

/-- What a tag directive says. -/
def shorthand? (s : List Place) : Option (Token × List Place) :=
  match s with
  | p :: after => do
      if p.char != '!' then none
      let (short, rest) := handle after
      if short != "!" && !(short.length ≥ 2 && short.toList.getLast? == some '!') then none
      match rest with
      | [] => none
      | q :: _ =>
          if !isBlank q.char then none
          let (start, rest) ← tagText? true (afterBlanks rest)
          if start == "" || !atGap rest then none
          some (.shorthand short start, rest)
  | [] => none

/-- What follows the rest of a line, if that says nothing more. -/
def lineEnd? (s : List Place) : Option (List Place) :=
  let rest := afterBlanks s
  let rest := if (rest.head?.map Place.char) == some '#' then (span (!isBreak ·) rest).2 else rest
  match rest with
  | [] => some []
  | p :: rest => if isBreak p.char then some rest else none

/-- The directive behind a `%`. -/
def directive? (s : List Place) : Option (Token × List Place) := do
  let (word, rest) := span isWordChar s
  if !atGap rest then none
  let (token, rest) ←
    match String.ofList word with
    | "YAML" => version? (afterBlanks rest)
    | "TAG" => shorthand? (afterBlanks rest)
    | _ => none
  some (token, ← lineEnd? rest)

end SqlBackup.Yaml
