import SqlBackup.Calendar.Duration

/-!
# Failures of a session and of the configuration

A database session fails because the server refuses a statement, because the connection is lost
or does not answer in time, or because an answer has an unexpected shape. The configuration fails
because a file or a standard directory is missing or a value makes no sense.
-/
namespace SqlBackup

/-- Why a database session failed. -/
inductive SessionFault where
  /-- The server rejected a statement or query. -/
  | rejected (text : String)
  /-- The session could not be established or was lost. -/
  | connection (text : String)
  /-- Reading or writing the connection failed. -/
  | io (text : String)
  /-- The liveness check took longer than this. -/
  | timeout (limit : Calendar.Duration)
  /-- A query returned a shape that its caller did not expect. -/
  | unexpectedResult (query text : String)
  deriving DecidableEq, Inhabited

def SessionFault.message : SessionFault → String
  | rejected text => "Database error: " ++ text
  | connection text => "Connection error: " ++ text
  | io text => "IO error: " ++ text
  | timeout limit => "Connection did not respond within " ++ limit.text
  | unexpectedResult query text => "Unexpected result for " ++ query ++ ": " ++ text

/-- Why no configuration could be made. -/
inductive ConfigFault where
  | fileNotFound (path : String)
  /-- A value, or the file as a whole, makes no sense. -/
  | invalid (text : String)
  | io (text : String)
  /-- No standard directory of this kind can be told. -/
  | missingDirectory (kind : String)
  deriving DecidableEq, Inhabited

def ConfigFault.message : ConfigFault → String
  | fileNotFound path => "Configuration file not found: " ++ path
  | invalid text => "Invalid configuration: " ++ text
  | io text => "IO error: " ++ text
  | missingDirectory kind => "Could not determine " ++ kind ++ " directory"

end SqlBackup
