import SqlBackup.Json.Skip

/-!
# Values of a wanted shape

Each reader here wants a value of one shape. A value of another shape is refused, but only after
as much of it has been read as tells that it is a value at all.
-/
namespace SqlBackup.Json

/-- The refusal of a value whose shape is not the wanted one. -/
def refuse : List Char → ManifestFault
  | [] => .cutShort
  | '"' :: cs => after (textTail cs)
  | 'n' :: cs => after (keyword "ull".toList cs)
  | 't' :: cs => after (keyword "rue".toList cs)
  | 'f' :: cs => after (keyword "alse".toList cs)
  | '[' :: _ => .wrongShape
  | '{' :: _ => .wrongShape
  | c :: cs => if c == '-' || c.isDigit then after (number (c :: cs)) else .malformed
where
  /-- Its own fault if a value is none, and else that it has the wrong shape. -/
  after {α : Type} : Except ManifestFault α → ManifestFault
    | .error fault => fault
    | .ok _ => .wrongShape

/-- A text. -/
def text : Reader String := fun cs =>
  match skipBlanks cs with
  | '"' :: cs => textTail cs
  | cs => .error (refuse cs)

/-- A natural number of 64 bits. -/
def natural : Reader Nat := fun cs =>
  match skipBlanks cs with
  | [] => .error .cutShort
  | c :: cs =>
      if c == '-' || c.isDigit then do
        match ← number (c :: cs) with
        | (.natural n, rest) => .ok (n, rest)
        | (.other, _) => .error .wrongShape
      else .error (refuse (c :: cs))

/-- A null. -/
def null : Reader Unit := fun cs =>
  match skipBlanks cs with
  | 'n' :: cs => do .ok ((), ← keyword "ull".toList cs)
  | cs => .error (refuse cs)

/-- A null, for nothing, or something else. -/
def optional {α : Type} (item : Reader α) : Reader (Option α) := fun cs =>
  match skipBlanks cs with
  | 'n' :: cs => do .ok (none, ← keyword "ull".toList cs)
  | cs => do
      let (a, rest) ← item cs
      .ok (some a, rest)

/-- A text that `meaning` accepts. -/
def textWith {α : Type} (meaning : String → Option α) : Reader α := fun cs => do
  let (s, rest) ← text cs
  match meaning s with
  | some a => .ok (a, rest)
  | none => .error .wrongShape

/-- The colon between a key and its value. -/
def colon (cs : List Char) : Except ManifestFault (List Char) :=
  match skipBlanks cs with
  | [] => .error .cutShort
  | ':' :: cs => .ok cs
  | _ => .error .malformed

/-- One of some names, given as a text or as the key of an object whose only value is null. -/
def name {α : Type} (meaning : String → Option α) : Reader α := fun cs =>
  match skipBlanks cs with
  | [] => .error .cutShort
  | '"' :: cs => textWith meaning ('"' :: cs)
  | '{' :: cs => do
      let (a, cs) ← textWith meaning cs
      let cs ← colon cs
      let ((), cs) ← null cs
      match skipBlanks cs with
      | '}' :: cs => .ok (a, cs)
      | [] => .error .cutShort
      | _ => .error .malformed
  | _ => .error .malformed

/-- Whether another element follows in an array, and what it starts with. -/
def nextElement (first : Bool) (cs : List Char) : Except ManifestFault (Bool × List Char) :=
  match skipBlanks cs with
  | [] => .error .cutShort
  | ']' :: cs => .ok (false, ']' :: cs)
  | c :: cs =>
      if first then .ok (true, c :: cs)
      else if c == ',' then
        match skipBlanks cs with
        | [] => .error .cutShort
        | ']' :: _ => .error .malformed
        | cs => .ok (true, cs)
      else .error .malformed

/-- The end of an array. -/
def endArray (cs : List Char) : Except ManifestFault (List Char) :=
  match skipBlanks cs with
  | [] => .error .cutShort
  | ']' :: cs => .ok cs
  | _ => .error .malformed

/-- The elements of an array. Each takes a character away at least. -/
def elements {α : Type} (item : Reader α) : Nat → Bool → Reader (List α)
  | 0, _, _ => .error .cutShort
  | fuel + 1, first, cs => do
      match ← nextElement first cs with
      | (false, cs) => .ok ([], ← endArray cs)
      | (true, cs) =>
          let (a, cs) ← item cs
          let (as, cs) ← elements item fuel false cs
          .ok (a :: as, cs)

/-- An array. -/
def array {α : Type} (item : Reader α) : Reader (List α) := fun cs =>
  match skipBlanks cs with
  | '[' :: cs => elements item (cs.length + 1) true cs
  | cs => .error (refuse cs)

end SqlBackup.Json
