import SqlBackup.Config.Basic
import SqlBackup.Yaml.Document

/-!
# Configuration in a document

A document says some of the values, each at most once. What it says beyond them is passed over.
-/
namespace SqlBackup.Config

/-- A value of some kind of record, with the name that a document has for it. -/
structure Field (σ : Type) where
  name : String
  read : Yaml.Document → Yaml.Node → σ → Option σ

/-- A field that is read by itself. -/
def Field.of {σ α : Type} (name : String) (read : Yaml.Document → Yaml.Node → Option α)
    (put : σ → α → σ) : Field σ :=
  ⟨name, fun d node s => (read d node).map (put s)⟩

/-- Reads the fields of a record. `seen` are the names of those that were read. -/
def readFields {σ : Type} (d : Yaml.Document) (fields : List (Field σ)) (seen : List String) :
    List (Yaml.Node × Yaml.Node) → σ → Option σ
  | [], s => some s
  | (key, value) :: entries, s => do
      let name ← d.text? key
      match fields.find? (·.name == name) with
      | none => readFields d fields seen entries s
      | some field =>
          if seen.contains name then none
          else readFields d fields (name :: seen) entries (← field.read d value s)

/-- A field whose value has fields itself. -/
def Field.section {σ : Type} (name : String) (fields : List (Field σ)) : Field σ :=
  ⟨name, fun d node s => do readFields d fields [] (← d.entries? node) s⟩

/-- The values about backups. -/
def backupFields : List (Field Config) := [
  .of "backups-dir" Yaml.Document.optionalText? fun c a => { c with backupsDirectory := a },
  .of "compression" Yaml.Document.text? fun c a => { c with compression := a },
  .of "parallelism" (·.integer? 32) fun c a => { c with parallelism := a },
  .of "export-batch-rows" (·.natural? 64) fun c a => { c with batchRows := a },
  .of "fetch-size" (·.natural? 64) fun c a => { c with fetchSize := a },
  .of "max-statement-size" (·.natural? 64) fun c a => { c with statementLimit := a },
  .of "external-codecs" Yaml.Document.flag? fun c a => { c with external := a }]

/-- The values about connections. -/
def connectionFields : List (Field Config) := [
  .of "liveness-timeout-secs" (·.natural? 64) fun c a => { c with livenessSeconds := a }]

/-- All that a document can say. -/
def fields : List (Field Config) := [
  .section "backup" backupFields,
  .section "connection" connectionFields]

/-- The configuration that a text says. -/
def ofText? (text : String) : Option Config := do
  let d ← Yaml.Document.ofText? text
  readFields d fields [] (← d.entries? d.root) {}

end SqlBackup.Config
