import SqlBackup.Yaml.Place

/-!
# Scalars in blocks

A block scalar is a run of lines that are indented alike. A literal one keeps the ends of its
lines; a folded one reads a single end between two lines of text as a space.
-/
namespace SqlBackup.Yaml

/-- What is kept of the ends of lines behind the text. -/
inductive Chomping where
  | strip
  | clip
  | keep
  deriving DecidableEq, Inhabited

/-- What is said behind the mark of a block scalar. -/
structure BlockHeader where
  chomping : Chomping := .clip
  /-- How much further in than its surroundings the text is, if that is said. -/
  indent : Option Nat := none
  deriving Inhabited

def chomping? (c : Char) : Option Chomping :=
  if c == '+' then some .keep else if c == '-' then some .strip else none

/-- Reads what is said behind the mark, in either order. -/
def blockHeader (h : BlockHeader) : Nat → List Place → Option (BlockHeader × List Place)
  | 0, s => some (h, s)
  | _ + 1, [] => some (h, [])
  | n + 1, p :: rest =>
      match chomping? p.char with
      | some chomping =>
          if h.chomping == .clip then blockHeader { h with chomping } n rest
          else some (h, p :: rest)
      | none =>
          if p.char.isDigit && h.indent.isNone then
            if p.char == '0' then none
            else blockHeader { h with indent := some (p.char.toNat - 48) } n rest
          else some (h, p :: rest)

/-- Lines without text, and how far in the furthest of them and the text behind them start. An
indentation of 0 stands for one that is not known yet. -/
structure BlankLines where
  /-- The ends of the lines. -/
  breaks : List Char
  furthest : Nat
  rest : List Place
  deriving Inhabited

/-- Reads lines without text. -/
def blankLines (indent furthest : Nat) (breaks : List Char) : List Place → Option BlankLines
  | [] => some ⟨breaks.reverse, furthest, []⟩
  | p :: rest =>
      let shallow := indent == 0 || p.column < indent
      if shallow && p.char == ' ' then blankLines indent furthest breaks rest
      else if shallow && p.char == '\t' then none
      else if isBreak p.char then
        blankLines indent (max furthest p.column) (p.char :: breaks) rest
      else some ⟨breaks.reverse, max furthest p.column, p :: rest⟩

/-- What has been read of a block scalar. -/
structure BlockText where
  text : List Char := []
  /-- The end of the last line. -/
  lead : List Char := []
  /-- The ends of the lines without text behind it. -/
  blank : List Char
  /-- Whether the last line started with a blank. -/
  wasBlank : Bool := false
  deriving Inhabited

/-- What the ends of lines before a line are read as. -/
def BlockText.join (b : BlockText) (folds startsBlank : Bool) : List Char :=
  if folds && b.lead == ['\n'] && !b.wasBlank && !startsBlank then
    (if b.blank.isEmpty then [' '] else []) ++ b.blank
  else b.lead ++ b.blank

/-- What is kept at the end. -/
def BlockText.finish (b : BlockText) (chomping : Chomping) : String :=
  String.ofList (b.text ++
    match chomping with
    | .strip => []
    | .clip => b.lead
    | .keep => b.lead ++ b.blank)

/-- Reads the lines that start at this column. -/
def blockLines (folds : Bool) (indent : Nat) :
    Nat → BlockText → List Place → Option (BlockText × List Place)
  | 0, _, _ => none
  | fuel + 1, b, s =>
      match s with
      | [] => some (b, [])
      | p :: _ =>
          if p.column ≠ indent then some (b, s)
          else
            let (line, rest) := span (!isBreak ·) s
            let text := b.text ++ b.join folds (isBlank p.char) ++ line
            match rest with
            | [] => some (⟨text, [], [], isBlank p.char⟩, [])
            | q :: rest =>
                match blankLines indent 0 [] rest with
                | none => none
                | some lines =>
                    blockLines folds indent fuel
                      ⟨text, [q.char], lines.breaks, isBlank p.char⟩ lines.rest

/-- The block scalar behind its mark. What surrounds it starts at the column `outer`, if it is in a
block at all. -/
def blockScalar? (folds : Bool) (outer : Option Nat) (s : List Place) :
    Option (String × List Place) := do
  let (h, rest) ← blockHeader {} 2 s
  let rest := afterBlanks rest
  let rest := if (rest.head?.map Place.char) == some '#' then (span (!isBreak ·) rest).2 else rest
  let rest ←
    match rest with
    | [] => some []
    | p :: rest => if isBreak p.char then some rest else none
  let said := (h.indent.map (· + outer.getD 0)).getD 0
  let lines ← blankLines said 0 [] rest
  let inner := (outer.map (· + 1)).getD 0
  let indent := if said = 0 then max (max lines.furthest inner) 1 else said
  let (b, rest) ← blockLines folds indent (rest.length + 1) { blank := lines.breaks } lines.rest
  some (b.finish h.chomping, rest)

end SqlBackup.Yaml
