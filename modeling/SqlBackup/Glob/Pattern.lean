/-!
# Glob patterns

A pattern is read into tokens. `?` stands for one byte and `*` for any bytes, a slash included;
`[..]` and `[!..]` for one byte of or outside of a class; `{a,b}` for one of its branches; a
backslash takes the next character as it is. `**` reaches across directories where it stands
between slashes or at an end, and is two stars elsewhere.
-/
namespace SqlBackup.Glob

/-- A piece of a pattern. -/
inductive Token where
  | literal (c : Char)
  | anyByte
  | anyBytes
  /-- `**/` at the start: the root or anything below it. -/
  | leading
  /-- `/**` at the end: everything below. -/
  | trailing
  /-- `/**/`: a slash, or two with anything between them. -/
  | spanning
  | oneOf (negated : Bool) (ranges : List (Char × Char))
  | choice (branches : List (List Token))
  deriving Inhabited

/-- Why a pattern cannot be read. -/
inductive PatternFault where
  | unclosedClass
  | invalidRange (low high : Char)
  | unopenedChoice
  | unclosedChoice
  | danglingEscape
  deriving DecidableEq, Inhabited

def PatternFault.message : PatternFault → String
  | unclosedClass => "unclosed character class; missing ']'"
  | invalidRange low high =>
      "invalid range; '" ++ low.toString ++ "' > '" ++ high.toString ++ "'"
  | unopenedChoice =>
      "unopened alternate group; missing '\x7b' (maybe escape '\x7d' with '[\x7d]'?)"
  | unclosedChoice =>
      "unclosed alternate group; missing '\x7d' (maybe escape '\x7b' with '[\x7b]'?)"
  | danglingEscape => "dangling '\\'"

/-- A choice that is still open: its finished branches, the last one first. -/
abbrev OpenChoice := List (List Token)

/-- A class that is being read. -/
structure OpenClass where
  negated : Bool
  /-- Whether nothing was read since the bracket and its negation. -/
  first : Bool
  /-- Whether a dash was read that may make a range. -/
  inRange : Bool
  /-- The ranges so far, the last one first. -/
  ranges : List (Char × Char)

namespace OpenClass

/-- Extends the last range to this character. -/
def extend (k : OpenClass) (c : Char) : Except PatternFault OpenClass :=
  match k.ranges with
  | [] => .ok { k with first := false, inRange := false, ranges := [(c, c)] }
  | (low, _) :: ranges =>
      if c < low then .error (.invalidRange low c)
      else .ok { k with first := false, inRange := false, ranges := (low, c) :: ranges }

/-- Reads a character that does not end the class. -/
def add (k : OpenClass) (c : Char) : Except PatternFault OpenClass :=
  if k.inRange then k.extend c
  else if c == '-' && !k.first then .ok { k with inRange := true }
  else .ok { k with first := false, ranges := (c, c) :: k.ranges }

/-- The class as a token. A dash at the end stands for itself. -/
def close (k : OpenClass) : Token :=
  .oneOf k.negated (if k.inRange then ('-', '-') :: k.ranges else k.ranges).reverse

end OpenClass

/-- What the next character belongs to. -/
inductive Mode where
  | plain
  | escaped
  /-- Just behind an opening bracket. -/
  | bracket
  | inClass (k : OpenClass)

/-- What has been read of a pattern. -/
structure Reading where
  mode : Mode
  /-- The tokens of the current branch, the last one first. -/
  tokens : List Token
  /-- The choices around the current branch, the innermost first, each with the tokens before
  it. -/
  around : List (OpenChoice × List Token)
  /-- The character before the next one. -/
  previous : Option Char

namespace Reading

def initial : Reading := ⟨.plain, [], [], none⟩

def push (r : Reading) (t : Token) : Reading := { r with tokens := t :: r.tokens }

/-- Ends the innermost choice. -/
def closeChoice (r : Reading) : Except PatternFault Reading :=
  match r.around with
  | [] => .error .unopenedChoice
  | (branches, before) :: around =>
      let all := (r.tokens.reverse :: branches).reverse
      .ok { r with tokens := .choice all :: before, around }

/-- A comma separates branches inside of a choice. -/
def comma (r : Reading) : Reading :=
  match r.around with
  | [] => r.push (.literal ',')
  | (branches, before) :: around =>
      { r with tokens := [], around := (r.tokens.reverse :: branches, before) :: around }

/-- One character that is not part of `**`. -/
def step (r : Reading) (c : Char) : Except PatternFault Reading :=
  match r.mode with
  | .escaped => .ok { r.push (.literal c) with mode := .plain }
  | .bracket =>
      if c == '!' || c == '^' then .ok { r with mode := .inClass ⟨true, true, false, []⟩ }
      else (OpenClass.add ⟨false, true, false, []⟩ c).map fun k => { r with mode := .inClass k }
  | .inClass k =>
      if c == ']' && !k.first then .ok { r.push k.close with mode := .plain }
      else (k.add c).map fun k => { r with mode := .inClass k }
  | .plain =>
      if c == '?' then .ok (r.push .anyByte)
      else if c == '*' then .ok (r.push .anyBytes)
      else if c == '[' then .ok { r with mode := .bracket }
      else if c == '\x7b' then .ok { r with tokens := [], around := ([], r.tokens) :: r.around }
      else if c == '\x7d' then r.closeChoice
      else if c == ',' then .ok r.comma
      else if c == '\\' then .ok { r with mode := .escaped }
      else .ok (r.push (.literal c))

/-- What `**` makes of the token before it: nothing, or a slash or such a token that it takes the
place of. -/
inductive DoubleStar where
  /-- Two single stars. -/
  | twoStars
  /-- A token in place of the one before; `eats` tells whether the next slash belongs to it. -/
  | replaces (t : Token) (eats : Bool)
  /-- A token at the start of a branch; `eats` as before. -/
  | starts (eats : Bool)

/-- How `**` is read, given the character behind it. -/
def doubleStar (r : Reading) (next : Option Char) : DoubleStar :=
  match r.tokens with
  | [] =>
      match next with
      | none => .starts false
      | some c => if c == '/' then .starts true else .twoStars
  | last :: _ =>
      let opensBranch :=
        !r.around.isEmpty && (r.previous == some ',' || r.previous == some '\x7b')
      if r.previous != some '/' && !opensBranch then .twoStars
      else
        let ends := match next with
          | none => true
          | some c => (c == ',' || c == '\x7d') && !r.around.isEmpty
        if !ends && next != some '/' then .twoStars
        else
          match last with
          | .leading => .replaces .leading (!ends)
          | .trailing => .replaces .trailing (!ends)
          | _ => .replaces (if ends then .trailing else .spanning) (!ends)

def isPlain (r : Reading) : Bool :=
  match r.mode with
  | .plain => true
  | _ => false

/-- Reads `**`; the flag tells whether the slash behind it is read, too. -/
def stepDoubleStar (r : Reading) (next : Option Char) : Reading × Bool :=
  match r.doubleStar next with
  | .twoStars => ((r.push .anyBytes).push .anyBytes, false)
  | .replaces t eats => ({ r with tokens := t :: r.tokens.tail }, eats)
  | .starts eats => (r.push .leading, eats)

/-- Reads the characters of a pattern. -/
def run (r : Reading) : List Char → Except PatternFault Reading
  | [] => .ok r
  | c :: cs =>
      if r.isPlain && c == '*' && cs.head? == some '*' then
        let (r, eats) := r.stepDoubleStar cs.tail.head?
        if eats then run { r with previous := some '/' } cs.tail.tail
        else run { r with previous := some '*' } cs.tail
      else
        match r.step c with
        | .error fault => .error fault
        | .ok r => run { r with previous := some c } cs
termination_by cs => cs.length
decreasing_by all_goals simp only [List.length_tail, List.length_cons]; omega

/-- The tokens of a pattern that was read to its end. -/
def finish (r : Reading) : Except PatternFault (List Token) :=
  match r.mode with
  | .escaped => .error .danglingEscape
  | .bracket | .inClass _ => .error .unclosedClass
  | .plain => if r.around.isEmpty then .ok r.tokens.reverse else .error .unclosedChoice

end Reading

/-- The tokens of a pattern. -/
def tokens (pattern : String) : Except PatternFault (List Token) :=
  match Reading.initial.run pattern.toList with
  | .error fault => .error fault
  | .ok r => r.finish

end SqlBackup.Glob
