/-!
# Failures of files and streams

A failure either comes from the operating system, which gives it a number and a fixed text, or
from a layer above it, which gives it a kind and a text of its own.
-/
namespace SqlBackup

/-- What an operating system refuses to do, in the cases that files and programs meet. -/
inductive OsFault where
  | notFound
  | permissionDenied
  | alreadyExists
  | notADirectory
  | isADirectory
  | directoryNotEmpty
  | nameTooLong
  | execFormat
  deriving DecidableEq, Inhabited

namespace OsFault

/-- The number that the system gives the failure. -/
def code : OsFault → Nat
  | notFound => 2
  | permissionDenied => 13
  | alreadyExists => 17
  | notADirectory => 20
  | isADirectory => 21
  | directoryNotEmpty => 39
  | nameTooLong => 36
  | execFormat => 8

/-- The text that the system gives the failure. -/
def phrase : OsFault → String
  | notFound => "No such file or directory"
  | permissionDenied => "Permission denied"
  | alreadyExists => "File exists"
  | notADirectory => "Not a directory"
  | isADirectory => "Is a directory"
  | directoryNotEmpty => "Directory not empty"
  | nameTooLong => "File name too long"
  | execFormat => "Exec format error"

end OsFault

/-- The kind of a failure that a layer above the operating system reports. -/
inductive IoKind where
  | notFound
  | connectionReset
  | invalidInput
  | invalidData
  | writeZero
  | unexpectedEof
  | other
  deriving DecidableEq, Inhabited

/-- Why reading or writing failed. -/
inductive IoFault where
  | os (fault : OsFault)
  | layer (kind : IoKind) (text : String)
  deriving DecidableEq, Inhabited

namespace IoFault

/-- The text of a failure. -/
def message : IoFault → String
  | os f => f.phrase ++ " (os error " ++ toString f.code ++ ")"
  | layer _ text => text

end IoFault

end SqlBackup
