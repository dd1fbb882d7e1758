/-!
# Paths

A path is a text of components between slashes. Empty components and single dots name nothing, so
they are passed over where the last component is asked for.
-/
namespace SqlBackup.Files.Path

/-- Cuts a text at every slash. `part` holds the component being read, last character first. -/
def splitFrom (part : List Char) : List Char → List (List Char)
  | [] => [part.reverse]
  | c :: cs => if c == '/' then part.reverse :: splitFrom [] cs else splitFrom (c :: part) cs

/-- The texts between the slashes of a path. -/
def split (path : String) : List String := (splitFrom [] path.toList).map String.ofList

/-- The components that name something, two dots among them. -/
def components (path : String) : List String :=
  (split path).filter fun part => part != "" && part != "."

/-- The last component, unless that is the parent or there is none. -/
def fileName? (path : String) : Option String :=
  match (components path).getLast? with
  | none => none
  | some part => if part == ".." then none else some part

def isAbsolute (path : String) : Bool := path.toList.head? == some '/'

/-- A path below another. An absolute path is not moved, and no second slash is put in. -/
def join (base path : String) : String :=
  if isAbsolute path then path
  else if base.isEmpty || base.toList.getLast? == some '/' then base ++ path
  else base ++ "/" ++ path

end SqlBackup.Files.Path
