/-!
# Characters in their places

The structure of YAML is told by columns and lines, so every character is kept with its place. All
ends of lines but two are read as the same character.
-/
namespace SqlBackup.Yaml

/-- A character, how many came before it, and where it stands. -/
structure Place where
  char : Char
  index : Nat
  line : Nat
  column : Nat
  deriving DecidableEq, Inhabited

def isBlank (c : Char) : Bool := c == ' ' || c == '\t'

/-- Whether a character ends a line. -/
def isBreak (c : Char) : Bool := c == '\n' || c == '\u2028' || c == '\u2029'

/-- The mark that a text may start with. -/
def byteOrderMark : Char := '\ufeff'

/-- Whether a character may stand in a text at all. -/
def isAllowed (c : Char) : Bool :=
  let n := c.toNat
  n == 0x9 || n == 0xA || n == 0xD || (0x20 ≤ n && n ≤ 0x7E) || n == 0x85 ||
    (0xA0 ≤ n && n ≤ 0xFFFD) || 0x10000 ≤ n

/-- The characters of a text with their places. -/
def placesFrom (index line column : Nat) : List Char → List Place
  | [] => []
  | '\r' :: '\n' :: cs => ⟨'\n', index, line, column⟩ :: placesFrom (index + 2) (line + 1) 0 cs
  | c :: cs =>
      if c == '\r' || c == '\n' || c == '\u0085' then
        ⟨'\n', index, line, column⟩ :: placesFrom (index + 1) (line + 1) 0 cs
      else if isBreak c then
        ⟨c, index, line, column⟩ :: placesFrom (index + 1) (line + 1) 0 cs
      else ⟨c, index, line, column⟩ :: placesFrom (index + 1) line (column + 1) cs

/-- The characters of a text with their places, if all of them are allowed. -/
def places? (text : String) : Option (List Place) :=
  if text.toList.all isAllowed then some (placesFrom 0 0 0 text.toList) else none

/-- Whether a word is over here: at a blank, at the end of a line, or at the end of the text. -/
def atGap : List Place → Bool
  | [] => true
  | p :: _ => isBlank p.char || isBreak p.char

/-- Whether a line starts with a mark of three such characters. -/
def isMark (c : Char) : List Place → Bool
  | p :: q :: r :: rest =>
      p.column == 0 && p.char == c && q.char == c && r.char == c && atGap rest
  | _ => false

/-- Whether a line starts with the mark of the start or the end of a document. -/
def atMark (s : List Place) : Bool := isMark '-' s || isMark '.' s

/-- The longest start of a text whose characters pass a test, and the rest. -/
def span (test : Char → Bool) (s : List Place) : List Char × List Place :=
  ((s.takeWhile fun p => test p.char).map Place.char, s.dropWhile fun p => test p.char)

/-- What follows blanks. -/
def afterBlanks (s : List Place) : List Place := (span isBlank s).2

end SqlBackup.Yaml
