import SqlBackup.Config.Basic
import SqlBackup.Number.Whole
import SqlBackup.Text.Utf8

/-!
# The environment

Variables of the environment say where the standard directories are, and go before what the
configuration file says. One that is no text counts as unset.
-/
namespace SqlBackup

/-- The variables that are set. -/
structure Environment where
  values : List (String × List UInt8)
  deriving Inhabited

namespace Environment

/-- The bytes of a variable. -/
def bytes? (e : Environment) (name : String) : Option (List UInt8) := e.values.lookup name

/-- The text of a variable. -/
def text? (e : Environment) (name : String) : Option String :=
  (e.bytes? name).bind Text.Utf8.decode?

end Environment

namespace Config

/-- What a variable puts in the place of a value. -/
structure Override where
  name : String
  /-- The configuration with the value, if that makes sense. -/
  apply : String → Config → Option Config

/-- A variable whose text is a value of some type, with blanks around it. -/
def Override.of {α : Type} (name : String) (read : List Char → Option α)
    (put : Config → α → Config) : Override :=
  ⟨name, fun text c => (read (Text.trimChars text.toList)).map (put c)⟩

/-- The truth value that a variable is set to. -/
def flag? (cs : List Char) : Option Bool :=
  if cs = "true".toList then some true
  else if cs = "false".toList then some false
  else none

/-- A size in 64 bits. -/
def size? (cs : List Char) : Option Nat := (Number.natural? cs).bind (Number.within? 64)

/-- The variables, in the order in which they are looked at. -/
def overrides : List Override := [
  ⟨"DBKIT_BACKUPS_DIR", fun text c => some { c with backupsDirectory := some text }⟩,
  ⟨"DBKIT_COMPRESSION", fun text c => some { c with compression := text }⟩,
  .of "DBKIT_PARALLELISM" (fun cs => (Number.integer? cs).bind (Number.signedWithin? 32))
    fun c a => { c with parallelism := a },
  .of "DBKIT_EXPORT_BATCH_ROWS" size? fun c a => { c with batchRows := a },
  .of "DBKIT_FETCH_SIZE" size? fun c a => { c with fetchSize := a },
  .of "DBKIT_MAX_STATEMENT_SIZE" size? fun c a => { c with statementLimit := a },
  .of "DBKIT_EXTERNAL_CODECS" flag? fun c a => { c with external := a },
  .of "DBKIT_LIVENESS_TIMEOUT_SECS" size? fun c a => { c with livenessSeconds := a }]

/-- The configuration with the value of a variable, if that is set. -/
def Override.run (o : Override) (e : Environment) (c : Config) : Except ConfigFault Config :=
  match e.text? o.name with
  | none => .ok c
  | some text =>
      match o.apply text c with
      | some c => .ok c
      | none => .error (.invalid (o.name ++ " has an invalid value '" ++ text ++ "'"))

/-- The configuration with what the environment says. -/
def withEnvironment (c : Config) (e : Environment) : Except ConfigFault Config :=
  overrides.foldlM (fun c o => o.run e c) c

end Config

end SqlBackup
