import SqlBackup.Yaml.Name

/-!
# Scalars that flow

Plain and quoted scalars run on over the ends of lines. There, a single end of a line is read as a
space, and of several the first is not read at all.
-/
namespace SqlBackup.Yaml

/-- The space read since the last word, last character first. -/
structure Gap where
  blanks : List Char := []
  /-- Whether a line has ended. -/
  broken : Bool := false
  /-- The first end of a line, unless it does not count. -/
  first : Option Char := none
  /-- The other ends of lines. -/
  others : List Char := []
  deriving Inhabited

namespace Gap

/-- Blanks count only before the end of the line. -/
def blank (g : Gap) (c : Char) : Gap :=
  if g.broken then g else { g with blanks := c :: g.blanks }

/-- Reads the end of a line. -/
def lineBreak (g : Gap) (c : Char) : Gap :=
  if g.broken then { g with others := c :: g.others }
  else { blanks := [], broken := true, first := some c }

/-- The end of a line that does not count. -/
def escaped : Gap := { broken := true }

def isEmpty (g : Gap) : Bool := g.blanks.isEmpty && !g.broken

/-- What the space is read as, in front of what was read before. -/
def close (g : Gap) (out : List Char) : List Char :=
  if !g.broken then g.blanks ++ out
  else
    match g.first with
    | none => g.others ++ out
    | some '\n' => (if g.others.isEmpty then [' '] else g.others) ++ out
    | some c => g.others ++ c :: out

end Gap

/-- What was read, first character first. -/
def textOf (out : List Char) : String := String.ofList out.reverse

/-- Reads on in single quotes. -/
def singleQuoted (out : List Char) (gap : Gap) : List Place → Option (String × List Place)
  | [] => none
  | p :: rest =>
      if atMark (p :: rest) then none
      else if isBlank p.char then singleQuoted out (gap.blank p.char) rest
      else if isBreak p.char then singleQuoted out (gap.lineBreak p.char) rest
      else if p.char == '\'' then
        match rest with
        | [] => some (textOf (gap.close out), [])
        | q :: after =>
            if q.char == '\'' then singleQuoted ('\'' :: gap.close out) {} after
            else some (textOf (gap.close out), q :: after)
      else singleQuoted (p.char :: gap.close out) {} rest

/-- The character that a letter behind a backslash stands for. -/
def escapedChar? : Char → Option Char
  | '0' => some '\x00'
  | 'a' => some '\x07'
  | 'b' => some '\x08'
  | 't' => some '\t'
  | '\t' => some '\t'
  | 'n' => some '\n'
  | 'v' => some '\x0b'
  | 'f' => some '\x0c'
  | 'r' => some '\r'
  | 'e' => some '\x1b'
  | ' ' => some ' '
  | '"' => some '"'
  | '/' => some '/'
  | '\\' => some '\\'
  | 'N' => some '\u0085'
  | '_' => some '\u00a0'
  | 'L' => some '\u2028'
  | 'P' => some '\u2029'
  | _ => none

/-- How many digits follow a letter behind a backslash. -/
def escapeWidth? : Char → Option Nat
  | 'x' => some 2
  | 'u' => some 4
  | 'U' => some 8
  | _ => none

/-- The character that so many digits stand for. -/
def numberedChar? (width : Nat) (s : List Place) : Option Char := do
  let digits := (s.take width).map Place.char
  if digits.length ≠ width then none
  let n ← Number.ofDigits? 16 digits
  if n.isValidChar then some (Char.ofNat n) else none

/-- Reads on in double quotes. -/
def doubleQuoted (out : List Char) (gap : Gap) (s : List Place) : Option (String × List Place) :=
  match s with
  | [] => none
  | p :: rest =>
      if atMark (p :: rest) then none
      else if isBlank p.char then doubleQuoted out (gap.blank p.char) rest
      else if isBreak p.char then doubleQuoted out (gap.lineBreak p.char) rest
      else if p.char == '"' then some (textOf (gap.close out), rest)
      else if p.char == '\\' then
        match rest with
        | [] => none
        | q :: after =>
            if isBreak q.char then doubleQuoted (gap.close out) .escaped after
            else
              match escapeWidth? q.char with
              | some width =>
                  match numberedChar? width after with
                  | some c => doubleQuoted (c :: gap.close out) {} (after.drop width)
                  | none => none
              | none =>
                  match escapedChar? q.char with
                  | some c => doubleQuoted (c :: gap.close out) {} after
                  | none => none
      else doubleQuoted (p.char :: gap.close out) {} rest
termination_by s.length
decreasing_by all_goals simp_all +arith

/-- Whether a character has a meaning of its own in flow collections. -/
def isFlowMark (c : Char) : Bool := c == ',' || c == '[' || c == ']' || c == '{' || c == '}'

/-- Whether a plain scalar ends in front of what follows a gap. In a block it goes on only further
in than `inner`. -/
def endsBehindGap (isFlow : Bool) (inner : Nat) (s : List Place) : Bool :=
  match s with
  | [] => true
  | p :: _ => (!isFlow && p.column < inner) || atMark s || p.char == '#'

/-- A plain scalar with the gap behind it. -/
structure Plain where
  text : String
  /-- Whether a line ended in the gap. -/
  broken : Bool
  rest : List Place
  deriving Inhabited

/-- Reads on in a plain scalar. -/
def plain (isFlow : Bool) (inner : Nat) (out : List Char) (gap : Gap) : List Place → Option Plain
  | [] => some ⟨textOf out, gap.broken, []⟩
  | p :: rest =>
      if isBlank p.char then
        if gap.broken && p.column < inner && p.char == '\t' then none
        else plain isFlow inner out (gap.blank p.char) rest
      else if isBreak p.char then plain isFlow inner out (gap.lineBreak p.char) rest
      else if !gap.isEmpty && endsBehindGap isFlow inner (p :: rest) then
        some ⟨textOf out, gap.broken, p :: rest⟩
      else if isFlow && p.char == ':' &&
          (rest.head?.map Place.char).any fun c => c == '?' || isFlowMark c then none
      else if (p.char == ':' && atGap rest) || (isFlow && isFlowMark p.char) then
        some ⟨textOf out, gap.broken, p :: rest⟩
      else plain isFlow inner (p.char :: gap.close out) {} rest

end SqlBackup.Yaml
