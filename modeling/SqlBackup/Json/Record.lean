import SqlBackup.Json.Value

/-!
# Records

A record comes as an object or as an array of its fields in order. Keys that no field has are
passed over; a key that comes twice is refused. A field that may be missing must come last.
-/
namespace SqlBackup.Json

/-- A field of a record that is collected in a draft `δ`. -/
structure Field (δ : Type) where
  key : String
  /-- Whether the record can do without it. -/
  optional : Bool := false
  /-- Whether a draft has it. -/
  isSet : δ → Bool
  /-- Reads it into a draft. -/
  read : δ → Reader δ

/-- A field whose value is put into a place of the draft that is empty before. -/
def Field.of {δ α : Type} (key : String) (get : δ → Option α) (set : δ → α → δ)
    (item : Reader α) (optional : Bool := false) : Field δ where
  key := key
  optional := optional
  isSet d := (get d).isSome
  read d cs := do
    let (a, rest) ← item cs
    .ok (set d a, rest)

/-- Whether another member follows in an object, and what stands behind the first quotation mark
of its key. -/
def nextKey (first : Bool) (cs : List Char) : Except ManifestFault (Bool × List Char) :=
  match skipBlanks cs with
  | [] => .error .cutShort
  | '}' :: cs => .ok (false, cs)
  | c :: cs =>
      if first then if c == '"' then .ok (true, cs) else .error .malformed
      else if c == ',' then
        match skipBlanks cs with
        | [] => .error .cutShort
        | '"' :: cs => .ok (true, cs)
        | _ => .error .malformed
      else .error .malformed

/-- The members of an object, up to its end. Each takes a character away at least. -/
def members {δ : Type} (fields : List (Field δ)) : Nat → Bool → δ → Reader δ
  | 0, _, _, _ => .error .cutShort
  | fuel + 1, first, draft, cs => do
      match ← nextKey first cs with
      | (false, cs) => .ok (draft, cs)
      | (true, cs) =>
          let (key, cs) ← textTail cs
          match fields.find? (·.key == key) with
          | none =>
              let cs ← colon cs
              let cs ← skipValue cs
              members fields fuel false draft cs
          | some field =>
              if field.isSet draft then .error .wrongShape
              else
                let cs ← colon cs
                let (draft, cs) ← field.read draft cs
                members fields fuel false draft cs

/-- The fields of a record in order. -/
def inOrder {δ : Type} : List (Field δ) → Bool → δ → Reader δ
  | [], _, draft, cs => .ok (draft, cs)
  | field :: fields, first, draft, cs => do
      match ← nextElement first cs with
      | (false, cs) =>
          if field.optional then inOrder fields first draft cs else .error .wrongShape
      | (true, cs) =>
          let (draft, cs) ← field.read draft cs
          inOrder fields false draft cs

/-- A record. The draft that all is collected in must make one in the end. -/
def record {δ α : Type} (fields : List (Field δ)) (empty : δ) (build : δ → Option α) :
    Reader α := fun cs =>
  match skipBlanks cs with
  | '{' :: cs => do
      let (draft, cs) ← members fields (cs.length + 1) true empty cs
      match build draft with
      | some a => .ok (a, cs)
      | none => .error .wrongShape
  | '[' :: cs => do
      let (draft, cs) ← inOrder fields true empty cs
      match build draft with
      | some a => .ok (a, ← endArray cs)
      | none => .error .wrongShape
  | cs => .error (refuse cs)

/-- All of a text, blanks around it apart. -/
def whole {α : Type} (item : Reader α) (source : String) : Except ManifestFault α := do
  let (a, rest) ← item source.toList
  if (skipBlanks rest).isEmpty then .ok a else .error .malformed

end SqlBackup.Json
