import SqlBackup.Glob.Pattern
import SqlBackup.Text.Utf8

/-!
# Matching of glob patterns

A pattern matches the whole of a name or nothing of it. Names are taken as bytes, so a character
beyond ASCII counts as several. Each token leaves a set of rests of the name, and the pattern
matches when the empty rest is left in the end.
-/
namespace SqlBackup.Glob

/-- The ranges of bytes that a range of characters stands for: its ends lie next to each other
as bytes, and the last byte of the one and the first of the other make the range. -/
def byteRanges (range : Char × Char) : List (UInt8 × UInt8) :=
  let low := Text.Utf8.encode range.1.toString
  if range.1 == range.2 then low.map fun b => (b, b)
  else
    let high := Text.Utf8.encode range.2.toString
    (low.dropLast.map fun b => (b, b)) ++ [(low.getLastD 0, high.headD 0)] ++
      high.tail.map fun b => (b, b)

/-- Whether a byte lies in one of these ranges of characters. -/
def inRanges (ranges : List (Char × Char)) (b : UInt8) : Bool :=
  (ranges.flatMap byteRanges).any fun r => r.1 ≤ b && b ≤ r.2

/-- All rests of a name, the name itself included. -/
def suffixes : List UInt8 → List (List UInt8)
  | [] => [[]]
  | b :: bytes => (b :: bytes) :: suffixes bytes

/-- The rests of a name that follow a slash. -/
def belowSlash : List UInt8 → List (List UInt8)
  | [] => []
  | b :: bytes => if b == 0x2F then bytes :: belowSlash bytes else belowSlash bytes

/-- A set of rests without repetition. Rests of one name are equal when they are equally long. -/
def distinct : List (List UInt8) → List (List UInt8)
  | [] => []
  | s :: ss => if ss.any (·.length == s.length) then distinct ss else s :: distinct ss

/-- What is left after some bytes if the name starts with them. -/
def dropBytes (bytes name : List UInt8) : List (List UInt8) :=
  if bytes.isPrefixOf name then [name.drop bytes.length] else []

mutual

/-- Whether a token stands for nothing at all. -/
def Token.isVoid : Token → Bool
  | .choice branches => allVoid branches
  | _ => false

def isVoid : List Token → Bool
  | [] => true
  | t :: ts => t.isVoid && isVoid ts

def allVoid : List (List Token) → Bool
  | [] => true
  | b :: bs => isVoid b && allVoid bs

end

mutual

/-- The rests that a token leaves of a name. Branches that stand for nothing do not count. -/
def Token.rests (name : List UInt8) : Token → List (List UInt8)
  | .literal c => dropBytes (Text.Utf8.encode c.toString) name
  | .anyByte => if name.isEmpty then [] else [name.tail]
  | .anyBytes => suffixes name
  | .leading => name :: belowSlash name
  | .trailing => if name.head? == some 0x2F then suffixes name.tail else []
  | .spanning => if name.head? == some 0x2F then name.tail :: belowSlash name.tail else []
  | .oneOf negated ranges =>
      match name with
      | [] => []
      | b :: bytes => if inRanges ranges b != negated then [bytes] else []
  | .choice branches => if allVoid branches then [name] else restsOfAny name branches

def restsOfAll (names : List (List UInt8)) : List Token → List (List UInt8)
  | [] => names
  | t :: ts => restsOfAll (distinct (names.flatMap fun name => t.rests name)) ts

def restsOfAny (name : List UInt8) : List (List Token) → List (List UInt8)
  | [] => []
  | b :: bs =>
      if isVoid b then restsOfAny name bs else restsOfAll [name] b ++ restsOfAny name bs

end

def Token.isLiteral : Token → Bool
  | .literal _ => true
  | _ => false

def Token.isChar (c : Char) : Token → Bool
  | .literal d => c == d
  | _ => false

/-- Whether the pattern is about the last component of a path, which `..` is none of: a bare name
below `**/`, or a pattern that ends in a dot and is not a fixed text, with or without a star before
it. -/
def looksAtComponent (ts : List Token) : Bool :=
  let (led, body) := match ts with
    | .leading :: ts => (true, ts)
    | _ => (false, ts)
  let (starred, body) := match body with
    | .anyBytes :: ts => (true, ts)
    | _ => (false, body)
  if body.all Token.isLiteral then
    if starred then body.length == 1 && body.all (Token.isChar '.')
    else led && body.all (!Token.isChar '/' ·)
  else (body.getLast?.map (Token.isChar '.')).getD false

/-- Whether the last component of a path is `..`. -/
def endsInParent (name : List UInt8) : Bool :=
  name == [0x2E, 0x2E] || [0x2E, 0x2E, 0x2F].isPrefixOf name.reverse

/-- Whether the tokens match the whole name. -/
def matchesTokens (ts : List Token) (name : List UInt8) : Bool :=
  match ts with
  | [.leading] => true
  | _ =>
      if endsInParent name && looksAtComponent ts then false
      else (restsOfAll [name] ts).any List.isEmpty

end SqlBackup.Glob
