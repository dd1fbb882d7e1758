import Mathlib
import SqlBackup.Manifest.Storage
import SqlBackup.Proofs.Calendar.ReadBack
import SqlBackup.Proofs.Json.Blocks

/-!
# Manifests read back

A manifest comes back from its text, member by member, if its counts are numbers of 64 bits and its
time is one that a clock can show.
-/
namespace SqlBackup.Manifest

open Json (Fills Reads reads_field reads_natural reads_text)

/-- The counts of a dump have 64 bits. -/
structure File.Counted (f : File) : Prop where
  size : f.size < Nat.pow 2 64
  tables : f.tables < Nat.pow 2 64
  rows : f.rows < Nat.pow 2 64

/-- The counts of a manifest have 64 bits, and its time is one that a clock can show. -/
structure Sound (m : Manifest) : Prop where
  timestamp : m.timestamp.IsShown
  totalSize : m.totalSize < Nat.pow 2 64
  files : ∀ f ∈ m.files, f.Counted

instance (f : File) : Decidable f.Counted :=
  decidable_of_iff (f.size < Nat.pow 2 64 ∧ f.tables < Nat.pow 2 64 ∧ f.rows < Nat.pow 2 64)
    ⟨fun h => ⟨h.1, h.2.1, h.2.2⟩, fun h => ⟨h.size, h.tables, h.rows⟩⟩

instance (m : Manifest) : Decidable m.Sound :=
  decidable_of_iff
    (m.timestamp.IsShown ∧ m.totalSize < Nat.pow 2 64 ∧ ∀ f ∈ m.files, f.Counted)
    ⟨fun h => ⟨h.1, h.2.1, h.2.2⟩, fun h => ⟨h.timestamp, h.totalSize, h.files⟩⟩

/-- A member that may be left out fills a draft with what it says. -/
theorem fills_optionalMember {δ : Type} {fields : List (Json.Field δ)} {key : String}
    {get : δ → Option (Option String)} {set : δ → Option String → δ} {d e f : δ}
    {more : List (String × String)} {value : Option String}
    (hfield : fields.find? (·.key == key) =
      some (.of key get set (Json.optional Json.text) true))
    (hfree : get d = none) (he : e = value.elim d fun s => set d (some s))
    (h : Fills fields e more f) :
    Fills fields d (Json.optionalMember key value ++ more) f := by
  subst he
  cases value with
  | none => exact h
  | some s =>
    refine Fills.member hfield (by simp [Json.Field.of, hfree])
      (reads_field d ((reads_text s).optional ?_)) h
    rw [Json.toList_quoted]
    simp

/-- A dump comes back from its text. -/
theorem reads_file {f : File} (h : f.Counted) :
    Reads (Json.record File.fields {} File.Draft.build) f.text f := by
  cases f with
  | mk database filename size tables rows checksum =>
    let d : File.Draft := ⟨some database, some filename, some size, some tables, some rows, none⟩
    refine Json.reads_record (d := { d with checksum := checksum.map some }) ?_
      (by cases checksum <;> rfl) 2
    refine .member (e := { database := d.database }) rfl rfl
      (reads_field _ (reads_text database)) ?_
    refine .member (e := { database := d.database, filename := d.filename }) rfl rfl
      (reads_field _ (reads_text filename)) ?_
    refine .member (e := { d with tables := none, rows := none }) rfl rfl
      (reads_field _ (reads_natural h.size)) ?_
    refine .member (e := { d with rows := none }) rfl rfl
      (reads_field _ (reads_natural h.tables)) ?_
    refine .member (e := d) rfl rfl (reads_field _ (reads_natural h.rows)) ?_
    rw [← List.append_nil (Json.optionalMember _ _)]
    exact fills_optionalMember rfl rfl (by cases checksum <;> rfl) (.nothing _)

/-- A manifest comes back from its text. -/
theorem ofText_text {m : Manifest} (h : m.Sound) : ofText m.text = .ok m := by
  have hdatabases : Reads (Json.array Json.text)
      (Json.arrayText 1 (m.databases.map Json.quoted)) m.databases :=
    Json.reads_array 1 fun database _ => reads_text database
  have hfiles : Reads (Json.array (Json.record File.fields {} File.Draft.build))
      (Json.arrayText 1 (m.files.map File.text)) m.files :=
    Json.reads_array 1 fun f hf => reads_file (h.files f hf)
  let d : Draft := ⟨some m.id, some m.timestamp, some m.databases, some m.files,
    some m.totalSize, some m.compression, some m.serverVersion, some m.serverType, none, none⟩
  refine Reads.whole (Json.reads_record
    (d := { d with profile := m.profile.map some, description := m.description.map some }) ?_ ?_ 0)
  · refine .member (e := { id := d.id }) rfl rfl (reads_field _ (reads_text m.id)) ?_
    refine .member (e := { id := d.id, timestamp := d.timestamp }) rfl rfl
      (reads_field _ (Json.reads_textWith (Calendar.Instant.ofText?_text h.timestamp))) ?_
    refine .member (e := { id := d.id, timestamp := d.timestamp, databases := d.databases })
      rfl rfl (reads_field _ hdatabases) ?_
    refine .member (e := { d with
        totalSize := none, compression := none, serverVersion := none, serverType := none })
      rfl rfl (reads_field _ hfiles) ?_
    refine .member (e := { d with compression := none, serverVersion := none, serverType := none })
      rfl rfl (reads_field _ (reads_natural h.totalSize)) ?_
    refine .member (e := { d with serverVersion := none, serverType := none }) rfl rfl
      (reads_field _ (Json.reads_name (Compression.ofKey?_key m.compression))) ?_
    refine .member (e := { d with serverType := none }) rfl rfl
      (reads_field _ (reads_text m.serverVersion)) ?_
    refine .member (e := d) rfl rfl (reads_field _ (reads_text m.serverType)) ?_
    rw [← List.append_nil (Json.optionalMember "description" _)]
    refine fills_optionalMember (e := { d with profile := m.profile.map some }) rfl rfl
      (by cases m.profile <;> rfl) ?_
    exact fills_optionalMember rfl rfl (by cases m.description <;> rfl) (.nothing _)
  · cases m with
    | mk id timestamp databases files totalSize compression serverVersion serverType profile
        description => cases profile <;> cases description <;> rfl

end SqlBackup.Manifest
