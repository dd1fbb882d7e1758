import SqlBackup.Yaml.Block
import SqlBackup.Yaml.Flow

/-!
# From characters to tokens

Blocks are opened and closed by columns. That something is a key is only known at the colon behind
it, so where a key could have started is kept until then: it has one line and 1024 characters.
-/
namespace SqlBackup.Yaml

/-- A place where a key may have started. -/
structure KeyStart where
  /-- How many tokens came before it. -/
  number : Nat
  place : Place
  /-- Whether nothing but a key can stand there. -/
  required : Bool
  deriving Inhabited

/-- What is known while a text is cut into tokens. -/
structure Layout where
  /-- The tokens, last first. -/
  tokens : List Token := []
  /-- The columns of the open blocks, innermost first. -/
  blocks : List Nat := []
  /-- For the text and each open flow collection, innermost first, where a key may have started. -/
  keys : List (Option KeyStart) := [none]
  /-- Whether a key may start here. -/
  keyAllowed : Bool := true
  deriving Inhabited

namespace Layout

def isFlow (l : Layout) : Bool := l.keys.length > 1

/-- The first column that is inside the innermost block. -/
def inner (l : Layout) : Nat := (l.blocks.head?.map (· + 1)).getD 0

def push (l : Layout) (token : Token) : Layout := { l with tokens := token :: l.tokens }

/-- Puts tokens behind the first `number` ones. -/
def insert (l : Layout) (number : Nat) (tokens : List Token) : Layout :=
  let recent := l.tokens.length - number
  { l with tokens := l.tokens.take recent ++ tokens.reverse ++ l.tokens.drop recent }

def allowKey (l : Layout) (keyAllowed : Bool) : Layout := { l with keyAllowed }

/-- Gives the innermost start of a key up. -/
def dropKey (l : Layout) : Option Layout :=
  match l.keys with
  | some key :: keys => if key.required then none else some { l with keys := none :: keys }
  | _ => some l

/-- Gives up what has become too long for a key at this place. -/
def dropStale (l : Layout) (p : Place) : Option Layout := do
  let keys ← l.keys.mapM fun key? =>
    match key? with
    | some key =>
        if key.place.line < p.line || key.place.index + 1024 < p.index then
          if key.required then none else some none
        else some (some key)
    | none => some none
  some { l with keys }

/-- Notes that a key may start here. -/
def noteKey (l : Layout) (p : Place) : Option Layout :=
  if !l.keyAllowed then some l
  else do
    let required := !l.isFlow && l.blocks.head? == some p.column
    let l ← l.dropKey
    some { l with keys := some ⟨l.tokens.length, p, required⟩ :: l.keys.drop 1 }

/-- Opens a block at a column, unless one that far in is open. -/
def openBlock (l : Layout) (column number : Nat) (token : Token) : Layout :=
  if l.isFlow || column < l.inner then l
  else { l.insert number [token] with blocks := column :: l.blocks }

/-- Closes the blocks that a test on their columns tells. -/
def closeBlocks (l : Layout) (test : Nat → Bool) : Layout :=
  if l.isFlow then l
  else
    { l with
      tokens := (l.blocks.takeWhile test).map (fun _ => .blockEnd) ++ l.tokens
      blocks := l.blocks.dropWhile test }

/-- Passes over spaces, comments and ends of lines. Tells whether a key may start behind them. -/
def skipSpace (isFlow inComment keyAllowed : Bool) : List Place → Bool × List Place
  | [] => (keyAllowed, [])
  | p :: rest =>
      if isBreak p.char then skipSpace isFlow false (keyAllowed || !isFlow) rest
      else if inComment || (p.index == 0 && p.char == byteOrderMark) || p.char == ' ' ||
          ((isFlow || !keyAllowed) && p.char == '\t') then
        skipSpace isFlow inComment keyAllowed rest
      else if p.char == '#' then skipSpace isFlow true keyAllowed rest
      else (keyAllowed, p :: rest)

/-- A token of the document as a whole, which closes all blocks. -/
def outermost (l : Layout) (token : Token) : Option Layout := do
  let l ← (l.closeBlocks fun _ => true).dropKey
  some ((l.push token).allowKey false)

/-- Opens a flow collection, which may itself be a key. -/
def openFlow (l : Layout) (p : Place) (token : Token) : Option Layout := do
  let l ← l.noteKey p
  some (({ l with keys := none :: l.keys }.push token).allowKey true)

def closeFlow (l : Layout) (token : Token) : Option Layout := do
  let l ← l.dropKey
  let keys := if l.isFlow then l.keys.drop 1 else l.keys
  some (({ l with keys }.push token).allowKey false)

/-- A token that starts an item or a key of a block. -/
def entry (l : Layout) (p : Place) (start token : Token) (keyAllowed : Bool) : Option Layout := do
  if !l.isFlow && !l.keyAllowed then none
  let l ← (l.openBlock p.column l.tokens.length start).dropKey
  some ((l.push token).allowKey keyAllowed)

/-- The colon between a key and its value. -/
def colon (l : Layout) (p : Place) : Option Layout :=
  match l.keys with
  | some key :: keys =>
      let l := { l.insert key.number [.key] with keys := none :: keys }
      let l := l.openBlock key.place.column key.number .blockMappingStart
      some ((l.push .value).allowKey false)
  | _ =>
      if l.isFlow then some ((l.push .value).allowKey false)
      else if l.keyAllowed then
        let l := l.openBlock p.column l.tokens.length .blockMappingStart
        some ((l.push .value).allowKey true)
      else none

/-- A token that can be a key by itself. -/
def word (l : Layout) (p : Place) (token : Token) (keyAllowed : Bool := false) :
    Option Layout := do
  let l ← l.noteKey p
  some ((l.push token).allowKey keyAllowed)

/-- Whether a plain scalar can start so. -/
def startsPlain (l : Layout) (c : Char) (rest : List Place) : Bool :=
  if c == '-' then !(rest.head?.map Place.char).any isBlank
  else if c == '?' || c == ':' then !l.isFlow && !atGap rest
  else !isBlank c && !isBreak c && !",[]\x7b\x7d#&*!|>'\"%@`".toList.contains c

/-- Reads one token. -/
def step (l : Layout) (p : Place) (rest : List Place) : Option (Layout × List Place) := do
  let block (folds : Bool) (style : Style) : Option (Layout × List Place) := do
    let l ← l.dropKey
    let (text, rest) ← blockScalar? folds l.blocks.head? rest
    some ((l.push (.scalar style text)).allowKey true, rest)
  if p.column == 0 && p.char == '%' then
    let (token, rest) ← directive? rest
    some (← l.outermost token, rest)
  else if isMark '-' (p :: rest) then some (← l.outermost .documentStart, rest.drop 2)
  else if isMark '.' (p :: rest) then some (← l.outermost .documentEnd, rest.drop 2)
  else if p.char == '[' then some (← l.openFlow p .flowSequenceStart, rest)
  else if p.char == '{' then some (← l.openFlow p .flowMappingStart, rest)
  else if p.char == ']' then some (← l.closeFlow .flowSequenceEnd, rest)
  else if p.char == '}' then some (← l.closeFlow .flowMappingEnd, rest)
  else if p.char == ',' then
    let l ← l.dropKey
    some ((l.push .comma).allowKey true, rest)
  else if p.char == '-' && atGap rest then
    some (← l.entry p .blockSequenceStart .item true, rest)
  else if p.char == '?' && (l.isFlow || atGap rest) then
    some (← l.entry p .blockMappingStart .key !l.isFlow, rest)
  else if p.char == ':' && (l.isFlow || atGap rest) then some (← l.colon p, rest)
  else if p.char == '*' then
    let (name, rest) ← name? rest
    some (← l.word p (.alias name), rest)
  else if p.char == '&' then
    let (name, rest) ← name? rest
    some (← l.word p (.anchor name), rest)
  else if p.char == '!' then
    let (token, rest) ← tag? l.isFlow rest
    some (← l.word p token, rest)
  else if p.char == '|' && !l.isFlow then block false .literal
  else if p.char == '>' && !l.isFlow then block true .folded
  else if p.char == '\'' then
    let (text, rest) ← singleQuoted [] {} rest
    some (← l.word p (.scalar .single text), rest)
  else if p.char == '"' then
    let (text, rest) ← doubleQuoted [] {} rest
    some (← l.word p (.scalar .double text), rest)
  else if l.startsPlain p.char rest then
    let scalar ← plain l.isFlow l.inner [] {} (p :: rest)
    some (← l.word p (.scalar .plain scalar.text) scalar.broken, scalar.rest)
  else none

/-- Reads token after token. Each takes a character at least, so the number of characters bounds
their number. -/
def run : Nat → Layout → List Place → Option (List Token)
  | 0, _, _ => none
  | fuel + 1, l, s =>
      match skipSpace l.isFlow false l.keyAllowed s with
      | (_, []) => do
          let l ← (l.closeBlocks fun _ => true).dropKey
          some l.tokens.reverse
      | (keyAllowed, p :: rest) => do
          let l ← (l.allowKey keyAllowed).dropStale p
          let (l, rest) ← (l.closeBlocks (p.column < ·)).step p rest
          run fuel l rest

end Layout

/-- The tokens of a text. -/
def tokens? (text : String) : Option (List Token) := do
  let places ← places? text
  Layout.run (places.length + 1) {} places

end SqlBackup.Yaml
