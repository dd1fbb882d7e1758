import SqlBackup.Yaml.Layout

/-!
# From tokens to nodes

A node is a scalar, a sequence or a mapping, or stands for another node that has a name. A text
holds one document, and that has one node.
-/
namespace SqlBackup.Yaml

/-- A node. Names are told apart by numbers. -/
inductive Node where
  | alias (number : Nat)
  | scalar (anchor : Option Nat) (tag : Option String) (style : Style) (text : String)
  | sequence (anchor : Option Nat) (items : List Node)
  | mapping (anchor : Option Nat) (entries : List (Node × Node))
  deriving Inhabited

/-- The node where there is nothing. -/
def Node.empty : Node := .scalar none none .plain ""

mutual

/-- The nodes named by a number, in their order. -/
def Node.named (number : Nat) : Node → List Node
  | .alias _ => []
  | .scalar anchor tag style text =>
      if anchor == some number then [.scalar anchor tag style text] else []
  | .sequence anchor items =>
      (if anchor == some number then [.sequence anchor items] else []) ++
        Node.namedAmong number items
  | .mapping anchor entries =>
      (if anchor == some number then [.mapping anchor entries] else []) ++
        Node.namedWithin number entries

def Node.namedAmong (number : Nat) : List Node → List Node
  | [] => []
  | node :: nodes => node.named number ++ Node.namedAmong number nodes

def Node.namedWithin (number : Nat) : List (Node × Node) → List Node
  | [] => []
  | (key, value) :: entries =>
      key.named number ++ value.named number ++ Node.namedWithin number entries

end

/-- What is left to read, and what is known from what was read. -/
structure Reading where
  tokens : List Token
  /-- The numbers of the names so far. -/
  names : List (String × Nat) := []
  /-- What the short forms of tags stand for. -/
  shorthands : List (String × String) := [("!", "!"), ("!!", "tag:yaml.org,2002:")]
  deriving Inhabited

/-- A step of reading that can fail. -/
abbrev Read (α : Type) := StateT Reading Option α

namespace Read

/-- The next token, which stays. -/
def peek : Read (Option Token) := do return (← get).tokens.head?

def skip : Read Unit := modify fun r => { r with tokens := r.tokens.drop 1 }

/-- Gives a node a name. Its number is that of the different names before. -/
def bindName (name : String) : Read Nat := do
  let r ← get
  let number := r.names.length
  set { r with names := (name, number) :: r.names.filter (·.1 != name) }
  return number

/-- The name of the next node, if it has one. -/
def anchor? : Read (Option String) := do
  match ← peek with
  | some (.anchor name) => skip; return some name
  | _ => return none

/-- The tag of the next node, if it has one. -/
def tag? : Read (Option String) := do
  match ← peek with
  | some (.tag handle suffix) =>
      skip
      if handle == "" then return some suffix
      match (← get).shorthands.lookup handle with
      | some start => return some (start ++ suffix)
      | none => failure
  | _ => return none

/-- The name and the tag of the next node, in either order. -/
def properties : Read (Option String × Option String) := do
  let name ← anchor?
  let tag ← tag?
  if name.isNone && tag.isSome then return (← anchor?, tag)
  return (name, tag)

mutual

/-- Reads a node. In a block, block collections can be nodes, and behind a key also the items of a
sequence that is not indented. -/
def node : Nat → (inBlock behindKey : Bool) → Read Node
  | 0, _, _ => failure
  | fuel + 1, inBlock, behindKey => do
      match ← peek with
      | some (.alias name) =>
          skip
          match (← get).names.lookup name with
          | some number => return .alias number
          | none => failure
      | _ =>
          let (name, tag) ← properties
          let bound : Read (Option Nat) :=
            match name with
            | some name => some <$> bindName name
            | none => pure none
          match ← peek, inBlock, behindKey with
          | some .item, _, true => return .sequence (← bound) (← looseItems fuel)
          | some (.scalar style text), _, _ =>
              skip
              return .scalar (← bound) tag style text
          | some .flowSequenceStart, _, _ =>
              skip
              return .sequence (← bound) (← flowItems fuel true)
          | some .flowMappingStart, _, _ =>
              skip
              return .mapping (← bound) (← flowEntries fuel true)
          | some .blockSequenceStart, true, _ =>
              skip
              return .sequence (← bound) (← blockItems fuel)
          | some .blockMappingStart, true, _ =>
              skip
              return .mapping (← bound) (← blockEntries fuel)
          | _, _, _ =>
              if name.isNone && tag.isNone then failure
              return .scalar (← bound) tag .plain ""

/-- Reads a node, unless one of these tokens says that there is none. -/
def nodeUnless : Nat → (stops : Token → Bool) → (inBlock behindKey : Bool) → Read Node
  | 0, _, _, _ => failure
  | fuel + 1, stops, inBlock, behindKey => do
      if (← peek).any stops then return .empty
      node fuel inBlock behindKey

/-- Reads the items of a block. -/
def blockItems : Nat → Read (List Node)
  | 0 => failure
  | fuel + 1 => do
      match ← peek with
      | some .item =>
          skip
          let item ← nodeUnless fuel (fun t => t == .item || t == .blockEnd) true false
          return item :: (← blockItems fuel)
      | some .blockEnd => skip; return []
      | _ => failure

/-- Reads items that are not indented. -/
def looseItems : Nat → Read (List Node)
  | 0 => failure
  | fuel + 1 => do
      match ← peek with
      | some .item =>
          skip
          let item ← nodeUnless fuel
            (fun t => t == .item || t == .key || t == .value || t == .blockEnd) true false
          return item :: (← looseItems fuel)
      | _ => return []

/-- Reads the keys of a block with their values. -/
def blockEntries : Nat → Read (List (Node × Node))
  | 0 => failure
  | fuel + 1 => do
      let stops (t : Token) : Bool := t == .key || t == .value || t == .blockEnd
      match ← peek with
      | some .key =>
          skip
          let key ← nodeUnless fuel stops true true
          match ← peek with
          | some .value =>
              skip
              let value ← nodeUnless fuel stops true true
              return (key, value) :: (← blockEntries fuel)
          | _ => return (key, .empty) :: (← blockEntries fuel)
      | some .blockEnd => skip; return []
      | _ => failure

/-- Reads the items of a flow sequence. A key among them is a mapping with one entry. -/
def flowItems : Nat → (isFirst : Bool) → Read (List Node)
  | 0, _ => failure
  | fuel + 1, isFirst => do
      if (← peek) == some .flowSequenceEnd then
        skip
        return []
      if !isFirst then
        if (← peek) != some .comma then failure
        skip
      match ← peek with
      | some .flowSequenceEnd => skip; return []
      | some .key =>
          skip
          let stops (t : Token) : Bool := t == .comma || t == .flowSequenceEnd
          let key ←
            if (← peek).any fun t => t == .value || stops t then
              skip
              pure Node.empty
            else node fuel false false
          let value ←
            match ← peek with
            | some .value => skip; nodeUnless fuel stops false false
            | _ => pure Node.empty
          return .mapping none [(key, value)] :: (← flowItems fuel false)
      | _ =>
          let item ← node fuel false false
          return item :: (← flowItems fuel false)

/-- Reads the entries of a flow mapping. -/
def flowEntries : Nat → (isFirst : Bool) → Read (List (Node × Node))
  | 0, _ => failure
  | fuel + 1, isFirst => do
      if (← peek) == some .flowMappingEnd then
        skip
        return []
      if !isFirst then
        if (← peek) != some .comma then failure
        skip
      match ← peek with
      | some .flowMappingEnd => skip; return []
      | some .key =>
          skip
          let stops (t : Token) : Bool := t == .comma || t == .flowMappingEnd
          let key ← nodeUnless fuel (fun t => t == .value || stops t) false false
          let value ←
            match ← peek with
            | some .value => skip; nodeUnless fuel stops false false
            | _ => pure Node.empty
          return (key, value) :: (← flowEntries fuel false)
      | _ =>
          let key ← node fuel false false
          return (key, .empty) :: (← flowEntries fuel false)

end

end Read

end SqlBackup.Yaml
