import SqlBackup.Scan.State

/-!
# Delimiter directives

A line `DELIMITER <token>` is an order to the scanner and no part of any statement: from there on
the token ends a statement. The keyword is read without regard to case, and words that follow the
token are ignored.
-/
namespace SqlBackup.Scan

/-- Whether two texts agree but for the case of ASCII letters. -/
def sameWord (a b : List Char) : Bool := a.map Char.toLower == b.map Char.toLower

/-- The first word of a trimmed text, up to an ASCII blank, and what follows that blank. -/
def splitAtBlank (cs : List Char) : Option (List Char × List Char) :=
  match cs.dropWhile (!Text.isAsciiBlankChar ·) with
  | [] => none
  | _ :: rest => some (cs.takeWhile (!Text.isAsciiBlankChar ·), rest)

/-- The delimiter that a line of text sets, if the line is a directive. -/
def directiveToken? (line : List Char) : Option (List Char) :=
  match splitAtBlank (Text.trimChars line) with
  | none => none
  | some (keyword, rest) =>
      if sameWord keyword "delimiter".toList then (Text.words rest).head? else none

/-- The delimiter that a line of bytes sets, if the line is a directive. -/
def directive? (line : List UInt8) : Option Delimiter :=
  match Text.Utf8.decode? line with
  | none => none
  | some text =>
      (directiveToken? text.toList).map fun token =>
        .ofBytes (Text.Utf8.encode (String.ofList token))

end SqlBackup.Scan
