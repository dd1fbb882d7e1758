import SqlBackup.Json.Number

/-!
# Passing over a value of JSON

What nobody asks for must still be well formed.
-/
namespace SqlBackup.Json

/-- An array or object that is open. -/
inductive Frame where
  | array
  | object
  deriving DecidableEq, Inhabited

def Frame.close : Frame → Char
  | array => ']'
  | object => '}'

/-- What is expected next. -/
inductive Expected where
  | value
  /-- The first member of the innermost frame, or its end. -/
  | first
  /-- A further member of the innermost frame, or its end. -/
  | further
  deriving DecidableEq, Inhabited

/-- The key of an object's member, with its colon. -/
def skipKey (cs : List Char) : Except ManifestFault (List Char) :=
  match skipBlanks cs with
  | [] => .error .cutShort
  | '"' :: cs => do
      let rest ← skipText cs
      match skipBlanks rest with
      | [] => .error .cutShort
      | ':' :: rest => .ok rest
      | _ => .error .malformed
  | _ => .error .malformed

/-- What stands in front of the value of a member. -/
def skipLead : Frame → List Char → Except ManifestFault (List Char)
  | .array, cs => .ok cs
  | .object, cs => skipKey cs

/-- Passes over what is left of the open frames. Every second step takes a character away. -/
def skipOpen : Nat → Expected → List Frame → List Char → Except ManifestFault (List Char)
  | 0, _, _, _ => .error .cutShort
  | fuel + 1, .value, frames, cs =>
      match skipBlanks cs with
      | [] => .error .cutShort
      | '[' :: cs => skipOpen fuel .first (.array :: frames) cs
      | '{' :: cs => skipOpen fuel .first (.object :: frames) cs
      | '"' :: cs => do skipOpen fuel .further frames (← skipText cs)
      | 'n' :: cs => do skipOpen fuel .further frames (← keyword "ull".toList cs)
      | 't' :: cs => do skipOpen fuel .further frames (← keyword "rue".toList cs)
      | 'f' :: cs => do skipOpen fuel .further frames (← keyword "alse".toList cs)
      | c :: cs =>
          if c == '-' || c.isDigit then do
            skipOpen fuel .further frames (← skipNumber (c :: cs))
          else .error .malformed
  | _ + 1, _, [], cs => .ok cs
  | fuel + 1, .first, frame :: frames, cs =>
      match skipBlanks cs with
      | [] => .error .cutShort
      | c :: cs =>
          if c == frame.close then skipOpen fuel .further frames cs
          else do skipOpen fuel .value (frame :: frames) (← skipLead frame (c :: cs))
  | fuel + 1, .further, frame :: frames, cs =>
      match skipBlanks cs with
      | [] => .error .cutShort
      | c :: cs =>
          if c == frame.close then skipOpen fuel .further frames cs
          else if c == ',' then do
            skipOpen fuel .value (frame :: frames) (← skipLead frame cs)
          else .error .malformed

/-- Passes over a value. -/
def skipValue (cs : List Char) : Except ManifestFault (List Char) :=
  skipOpen (2 * cs.length + 2) .value [] cs

end SqlBackup.Json
