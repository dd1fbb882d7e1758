import SqlBackup.Yaml.Node

/-!
# Documents

A text holds one document, which has one node. What names stand for is looked up in the document
as a whole.
-/
namespace SqlBackup.Yaml

structure Document where
  root : Node
  deriving Inhabited

namespace Read

def isDirective : Token → Bool
  | .version _ _ => true
  | .shorthand _ _ => true
  | _ => false

/-- The version that a directive says, if it is one that can be read. -/
def isKnownVersion : Token → Bool
  | .version major minor => major == 1 && (minor == 1 || minor == 2)
  | _ => true

def isVersion : Token → Bool
  | .version _ _ => true
  | _ => false

/-- What a directive says that tags stand for. -/
def shorthandOf? : Token → Option (String × String)
  | .shorthand handle start => some (handle, start)
  | _ => none

/-- Reads the directives of a document. Nothing may be said twice. -/
def directives : Read Unit := do
  let r ← get
  let (said, tokens) := r.tokens.span isDirective
  let own := said.filterMap shorthandOf?
  let names := own.map (·.1)
  if said.countP isVersion > 1 || !said.all isKnownVersion || names.eraseDups != names then failure
  set { r with tokens, shorthands := own ++ r.shorthands }

/-- Whether a token cannot be part of a document's node. -/
def isOutside (t : Token) : Bool := isDirective t || t == .documentStart || t == .documentEnd

/-- Reads the only document of a text. -/
def document : Read Document := do
  let fuel := 3 * (← get).tokens.length + 4
  let root ←
    match ← peek with
    | none => pure Node.empty
    | some token =>
        if isDirective token || token == .documentStart then
          directives
          if (← peek) != some .documentStart then failure
          skip
          if (← peek).isNone then pure Node.empty
          else nodeUnless fuel isOutside true false
        else node fuel true false
  if (← get).tokens.all (· == .documentEnd) then return ⟨root⟩
  failure

end Read

namespace Document

/-- Reads a text. -/
def ofText? (text : String) : Option Document := do
  let (document, _) ← Read.document.run { tokens := ← tokens? text }
  some document

/-- The node that a node stands for. -/
def target (d : Document) : Node → Node
  | .alias number => ((d.root.named number).getLast?).getD .empty
  | node => node

/-- The entries of a mapping. Where there is nothing there are none. -/
def entries? (d : Document) (node : Node) : Option (List (Node × Node)) :=
  match d.target node with
  | .mapping _ entries => some entries
  | .scalar _ _ .plain "" => some []
  | _ => none

/-- The text of a scalar, whatever it is the text of. -/
def text? (d : Document) (node : Node) : Option String :=
  match d.target node with
  | .scalar _ _ _ text => some text
  | _ => none

/-- The tag of a type of scalars. -/
def tagOf (type : String) : String := "tag:yaml.org,2002:" ++ type

/-- The characters of a scalar that can be read as a value of a type. One in quotes is a text. -/
def literal? (d : Document) (type : String) (node : Node) : Option (List Char) :=
  match d.target node with
  | .scalar _ _ .plain text => some text.toList
  | .scalar _ tag .literal text => if tag == some (tagOf type) then some text.toList else none
  | _ => none

/-- The base and the digits of a number that says its base. -/
def based? : List Char → Option (Nat × List Char)
  | '0' :: 'x' :: digits => some (16, digits)
  | '0' :: 'o' :: digits => some (8, digits)
  | '0' :: 'b' :: digits => some (2, digits)
  | _ => none

/-- Whether digits start with a zero that a number has no use for. -/
def hasLeadingZero (digits : List Char) : Bool :=
  digits.head? == some '0' && digits.length > 1 && digits.all Char.isDigit

/-- The natural number that digits are written for. -/
def magnitude? (cs : List Char) : Option Nat :=
  match based? cs with
  | some (base, digits) => Number.ofDigits? base digits
  | none => if hasLeadingZero cs then none else Number.ofDigits? 10 cs

/-- The natural number that a scalar is written for, in at most so many bits. -/
def natural? (d : Document) (bits : Nat) (node : Node) : Option Nat := do
  let n ←
    match ← d.literal? "int" node with
    | '+' :: cs => magnitude? cs
    | cs => magnitude? cs
  Number.within? bits n

/-- The integer that a scalar is written for, in at most so many bits. -/
def integer? (d : Document) (bits : Nat) (node : Node) : Option Int := do
  let n ←
    match ← d.literal? "int" node with
    | '+' :: cs => (magnitude? cs).map Int.ofNat
    | '-' :: cs => (magnitude? cs).map fun n => -(n : Int)
    | cs => (magnitude? cs).map Int.ofNat
  Number.signedWithin? bits n

/-- The truth value that a scalar is written for. -/
def flag? (d : Document) (node : Node) : Option Bool := do
  let text := String.ofList (← d.literal? "bool" node)
  if text == "true" || text == "True" || text == "TRUE" then some true
  else if text == "false" || text == "False" || text == "FALSE" then some false
  else none

/-- Whether a text says that there is nothing. -/
def isNull (text : String) : Bool :=
  text == "null" || text == "Null" || text == "NULL" || text == "~"

/-- The text of a scalar, or nothing where it says so. -/
def optionalText? (d : Document) (node : Node) : Option (Option String) :=
  match d.target node with
  | .scalar _ (some tag) .plain text =>
      if tag == tagOf "null" then (if isNull text then some none else none)
      else some (some text)
  | .scalar _ none .plain text =>
      some (if text.isEmpty || isNull text then none else some text)
  | .scalar _ _ _ text => some (some text)
  | _ => none

end Document

end SqlBackup.Yaml
