import SqlBackup.Files.Call
import SqlBackup.Files.Path
import SqlBackup.Text.Utf8

/-!
# Files in memory

A tree of files and directories, kept as a list of places. A place is the list of names that lead
to it. A path is walked name by name, so that what fails on the way fails here as it does on a
disk.
-/
namespace SqlBackup.Scripted

open Files (Entry Kind)

/-- The names that lead from the root to a file or directory. -/
abbrev Place := List String

/-- Files and directories. The root is always there. -/
structure Tree where
  entries : List (Place × Entry)
  deriving DecidableEq, Inhabited

namespace Tree

/-- What is at a place. -/
def at? (t : Tree) (place : Place) : Option Entry :=
  if place.isEmpty then some .directory
  else (t.entries.find? (·.1 == place)).map (·.2)

/-- Puts an entry at a place, instead of what is there. -/
def put (t : Tree) (place : Place) (entry : Entry) : Tree :=
  ⟨t.entries.filter (·.1 != place) ++ [(place, entry)]⟩

/-- Takes a place and all below it out. -/
def prune (t : Tree) (place : Place) : Tree :=
  ⟨t.entries.filter fun e => !place.isPrefixOf e.1⟩

/-- The most bytes that a name may have. -/
def nameLimit : Nat := 255

/-- The most bytes that a path may have. -/
def pathLimit : Nat := 4095

/-- Walks on from a place. All but the last name must lead to directories. -/
def walk (t : Tree) (place : Place) : List String → Except IoFault Place
  | [] => .ok place
  | name :: names =>
      match t.at? place with
      | none => .error (.os .notFound)
      | some (.file _) => .error (.os .notADirectory)
      | some .directory =>
          if name == "" || name == "." then walk t place names
          else if name == ".." then walk t place.dropLast names
          else if (Text.Utf8.encode name).length > nameLimit then .error (.os .nameTooLong)
          else walk t (place ++ [name]) names

/-- The place that a path leads to. What a slash ends must be a directory. -/
def resolve (t : Tree) (path : String) : Except IoFault Place :=
  if path.toList.contains '\x00' then
    .error (.layer .invalidInput "file name contained an unexpected NUL byte")
  else if path.isEmpty then .error (.os .notFound)
  else if (Text.Utf8.encode path).length > pathLimit then .error (.os .nameTooLong)
  else t.walk (if Files.Path.isAbsolute path then ["/"] else []) (Files.Path.split path)

/-- What a path names. -/
def open? (t : Tree) (path : String) : Except IoFault Entry :=
  match t.resolve path with
  | .error fault => .error fault
  | .ok place =>
      match t.at? place with
      | none => .error (.os .notFound)
      | some entry => .ok entry

/-- Changes the tree where a path leads to a place that `change` accepts. -/
def edit (t : Tree) (path : String)
    (change : Place → Option Entry → Except OsFault Tree) : Except IoFault Unit × Tree :=
  match t.resolve path with
  | .error fault => (.error fault, t)
  | .ok place =>
      match change place (t.at? place) with
      | .error fault => (.error (.os fault), t)
      | .ok t => (.ok (), t)

/-- Makes directories from a place down. What was made stays even if a later one fails. -/
def makePath (t : Tree) (place : Place) : List String → Except IoFault Unit × Tree
  | [] => (.ok (), t)
  | name :: names =>
      match t.walk place [name] with
      | .error fault => (.error fault, t)
      | .ok next =>
          match t.at? next with
          | some .directory => t.makePath next names
          | some (.file _) =>
              (.error (.os (if names.isEmpty then .alreadyExists else .notADirectory)), t)
          | none => (t.put next .directory).makePath next names

/-- The names directly below a place. -/
def namesAt (t : Tree) (place : Place) : List String :=
  t.entries.filterMap fun e =>
    if e.1.dropLast == place && e.1 != place then e.1.getLast? else none

/-- The length of what a path names. -/
def size (entry : Entry) : Nat :=
  match entry with
  | .file bytes => bytes.length
  | .directory => 4096

def create (t : Tree) (path : String) : Except IoFault Unit × Tree :=
  t.edit path fun place entry =>
    match entry with
    | some .directory => .error .isADirectory
    | _ => .ok (t.put place (.file []))

def append (t : Tree) (path : String) (bytes : List UInt8) : Except IoFault Unit × Tree :=
  t.edit path fun place entry =>
    match entry with
    | none => .error .notFound
    | some .directory => .error .isADirectory
    | some (.file old) => .ok (t.put place (.file (old ++ bytes)))

def remove (t : Tree) (path : String) : Except IoFault Unit × Tree :=
  t.edit path fun place entry =>
    match entry with
    | none => .error .notFound
    | some .directory => .error .isADirectory
    | some (.file _) => .ok (t.prune place)

def makeDirectory (t : Tree) (path : String) : Except IoFault Unit × Tree :=
  t.edit path fun place entry =>
    match entry with
    | some _ => .error .alreadyExists
    | none => .ok (t.put place .directory)

def makeDirectories (t : Tree) (path : String) : Except IoFault Unit × Tree :=
  match t.resolve path with
  | .error (.layer kind text) => (.error (.layer kind text), t)
  | _ =>
      t.makePath (if Files.Path.isAbsolute path then ["/"] else []) (Files.Path.components path)

def removeTree (t : Tree) (path : String) : Except IoFault Unit × Tree :=
  t.edit path fun place entry =>
    match entry with
    | none => .error .notFound
    | some (.file _) => .error .notADirectory
    | some .directory => .ok (t.prune place)

def rename (t : Tree) (source target : String) : Except IoFault Unit × Tree :=
  match t.open? source, t.resolve source with
  | .ok entry, .ok origin =>
      t.edit target fun place old =>
        match old with
        | some .directory => .error .isADirectory
        | _ => .ok ((t.prune origin).put place entry)
  | .error fault, _ => (.error fault, t)
  | _, .error fault => (.error fault, t)

def list (t : Tree) (path : String) : Except IoFault (List String) :=
  match t.resolve path, t.open? path with
  | .ok place, .ok .directory => .ok (t.namesAt place)
  | _, .ok (.file _) => .error (.os .notADirectory)
  | _, .error fault => .error fault
  | .error fault, _ => .error fault

/-- Answers a call. -/
def call (t : Tree) : (c : Files.Call) → c.Reply × Tree
  | .kind path => ((t.open? path).toOption.map Entry.kind, t)
  | .read path => ((t.open? path).map Entry.content, t)
  | .size path => ((t.open? path).map size, t)
  | .create path => t.create path
  | .append path bytes => t.append path bytes
  | .sync path => ((t.open? path).map fun _ => (), t)
  | .remove path => t.remove path
  | .makeDirectory path => t.makeDirectory path
  | .makeDirectories path => t.makeDirectories path
  | .removeTree path => t.removeTree path
  | .list path => (t.list path, t)
  | .rename source target => t.rename source target

/-- The paths below a place in order, without a branch, and with a slash behind a directory. -/
def listing (t : Tree) (place branch : Place) : List String :=
  let shown := t.entries.filterMap fun e =>
    if place.isPrefixOf e.1 && e.1 != place && !branch.isPrefixOf e.1 then
      let path := "/".intercalate (e.1.drop place.length)
      some (if e.2.kind == .directory then path ++ "/" else path)
    else none
  shown.mergeSort fun a b => decide (a ≤ b)

end Tree

end SqlBackup.Scripted
