import SqlBackup.Text.Blank
import SqlBackup.Text.FoldCase

/-!
# Statements that name the dumped database

A dump that is loaded under another name may create or use the database that it was taken from.
Such statements are recognised here, so that the load can pass them over. Keywords and the name
are compared without regard to case, and the name may be quoted.
-/
namespace SqlBackup.Load.Rename

/-- A part of a pattern: the rests of a text behind each way to match the part. -/
abbrev Part := List Char → List (List Char)

/-- One part after the other. -/
def followedBy (p q : Part) : Part := fun text => (p text).flatMap q

/-- A part that may be missing. -/
def optional (p : Part) : Part := fun text => text :: p text

/-- One of two parts. -/
def either (p q : Part) : Part := fun text => p text ++ q text

/-- These letters, in any case. -/
def word : List Char → Part
  | [], text => [text]
  | _ :: _, [] => []
  | c :: cs, d :: text => if Text.sameLetter c d then word cs text else []

/-- One blank or more. -/
def blanks : Part
  | [] => []
  | c :: text => if Text.isBlank c then text :: blanks text else []

/-- A mark that quotes a name. -/
def quoteMark : Part
  | [] => []
  | c :: text => if c == '\x60' || c == '"' then [text] else []

/-- Keywords with blanks between them. -/
def keywords : List String → Part
  | [] => fun text => [text]
  | [keyword] => word keyword.toList
  | keyword :: rest => followedBy (word keyword.toList) (followedBy blanks (keywords rest))

/-- What creates or uses a database, up to the name. -/
def verb : Part :=
  either
    (followedBy (followedBy (word "CREATE".toList) (followedBy blanks
        (either (word "DATABASE".toList) (word "SCHEMA".toList))))
      (optional (followedBy blanks (keywords ["IF", "NOT", "EXISTS"]))))
    (word "USE".toList)

/-- The name, quoted or not. -/
def quotedName (name : String) : Part :=
  followedBy (optional quoteMark) (followedBy (word name.toList) (optional quoteMark))

/-- Whether nothing stands behind a name, or something apart from it. -/
def standsAlone : List Char → Bool
  | [] => true
  | c :: _ => Text.isBlank c

/-- Whether a statement creates or uses the database of this name. -/
def names (database sql : String) : Bool :=
  (followedBy verb (followedBy blanks (quotedName database))
    (Text.trimStartChars sql.toList)).any standsAlone

end SqlBackup.Load.Rename
