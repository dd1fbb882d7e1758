import Mathlib
import SqlBackup.Proofs.Manifest.ReadBack

/-!
# The members of a manifest's text

A reader that knows one member only finds it in the text of a manifest exactly where the manifest
has a value for it: what is absent is not written, not even as a null. A text without the members
that may be missing is read as a manifest without their values, whoever has written it.
-/
namespace SqlBackup

namespace Json

variable {α δ : Type} {item : Reader α} {written key : String} {a : α} {fields : List (Field δ)}

/-- The field of a record that has no other. -/
def onlyField (key : String) (item : Reader α) : Field (Option α) :=
  .of key id (fun _ a => some a) item true

/-- What an object has under a key. All else is passed over. -/
def member (key : String) (item : Reader α) : Reader (Option α) :=
  record [onlyField key item] none some

/-- Members whose key is another and that are passed over. -/
structure AllOther (key : String) (ms : List (String × String)) : Prop where
  other : ∀ m ∈ ms, key ≠ m.1
  passes : ∀ m ∈ ms, Passes .array m.2

theorem AllOther.append {ms ms' : List (String × String)} (h : AllOther key ms)
    (h' : AllOther key ms') : AllOther key (ms ++ ms') :=
  ⟨List.forall_mem_append.mpr ⟨h.other, h'.other⟩, List.forall_mem_append.mpr ⟨h.passes, h'.passes⟩⟩

theorem allOther_nil (key : String) : AllOther key [] :=
  ⟨List.forall_mem_nil _, List.forall_mem_nil _⟩

/-- Members that no field has leave a draft as it is. -/
theorem Fills.behind {ms more : List (String × String)} {d f : δ}
    (h : ∀ m ∈ ms, fields.find? (·.key == m.1) = none ∧ Passes .array m.2)
    (hmore : Fills fields d more f) : Fills fields d (ms ++ more) f := by
  induction ms with
  | nil => exact hmore
  | cons m ms ih =>
    rw [List.forall_mem_cons] at h
    exact .passed h.1.1 h.1.2 (ih h.2)

theorem AllOther.fills {ms more : List (String × String)} {value value' : Option α}
    (h : AllOther key ms) (hmore : Fills [onlyField key item] value more value') :
    Fills [onlyField key item] value (ms ++ more) value' := by
  refine Fills.behind (fun m hm => ⟨List.find?_singleton.trans (if_neg ?_), h.passes m hm⟩) hmore
  rw [beq_iff_eq]
  exact h.other m hm

/-- A member that is not written is not found. -/
theorem AllOther.reads {ms : List (String × String)} (h : AllOther key ms) (depth : Nat) :
    Reads (member key item) (objectText depth ms) none := by
  have hfills : Fills [onlyField key item] none ms none :=
    List.append_nil ms ▸ h.fills (.nothing _)
  exact reads_record hfills rfl depth

/-- A member is found among others. -/
theorem Reads.member (h : Reads item written a) {before after : List (String × String)}
    (hbefore : AllOther key before) (hafter : AllOther key after) (depth : Nat) :
    Reads (Json.member key item) (objectText depth (before ++ (key, written) :: after))
      (some a) := by
  have hfound : [onlyField key item].find? (·.key == key) = some (onlyField key item) :=
    List.find?_singleton.trans (if_pos (beq_iff_eq.mpr rfl))
  have hfills : Fills [onlyField key item] (some a) after (some a) :=
    List.append_nil after ▸ hafter.fills (.nothing _)
  exact reads_record (hbefore.fills (.member hfound rfl (reads_field none h) hfills)) rfl depth

theorem reads_optionalMember (value : Option String) {before after : List (String × String)}
    (hbefore : AllOther key before) (hafter : AllOther key after) (depth : Nat) :
    Reads (Json.member key text)
      (objectText depth (before ++ (optionalMember key value ++ after))) value := by
  cases value with
  | none => exact (hbefore.append hafter).reads depth
  | some s => exact (reads_text s).member hbefore hafter depth

theorem passes_optionalMember (key : String) (value : Option String) :
    ∀ m ∈ optionalMember key value, Passes .array m.2 := by
  cases value with
  | none => exact List.forall_mem_nil _
  | some s => exact List.forall_mem_singleton.mpr (passes_quoted s)

theorem allOther_optionalMember {other : String} (h : key ≠ other) (value : Option String) :
    AllOther key (optionalMember other value) := by
  refine ⟨?_, passes_optionalMember other value⟩
  cases value with
  | none => exact List.forall_mem_nil _
  | some s => exact List.forall_mem_singleton.mpr h

/-- A record is what its draft makes. -/
theorem record_of_draft {empty d : δ} {build : δ → Option α} {cs rest : List Char}
    (h : record fields empty some cs = .ok (d, rest)) (hbuild : build d = some a) :
    record fields empty build cs = .ok (a, rest) := by
  rw [record] at h
  split at h
  · next cs' hopen =>
    rw [record, hopen]
    rcases hmembers : members fields (cs'.length + 1) true empty cs' with fault | ⟨d', rest'⟩ <;>
      rw [hmembers] at h <;> cases h
    simp only [bind, Except.bind, hbuild, hmembers]
  · next cs' hopen =>
    rw [record, hopen]
    rcases horder : inOrder fields true empty cs' with fault | ⟨d', cs''⟩ <;>
      rw [horder] at h
    · cases h
    · rcases hend : endArray cs'' with fault | rest' <;> simp only [bind, Except.bind, hend] at h <;>
        cases h
      simp only [bind, Except.bind, hbuild, horder, hend]
  · cases h

theorem whole_record_of_draft {empty d : δ} {build : δ → Option α} {source : String}
    (h : whole (record fields empty some) source = .ok d) (hbuild : build d = some a) :
    whole (record fields empty build) source = .ok a := by
  rw [whole] at h ⊢
  rcases hread : record fields empty some source.toList with fault | ⟨d', rest⟩ <;>
    rw [hread] at h
  · cases h
  · by_cases hend : (skipBlanks rest).isEmpty = true
    · obtain rfl : d' = d := Except.ok.inj ((if_pos hend).symm.trans h)
      rw [record_of_draft hread hbuild]
      exact if_pos hend
    · cases (if_neg hend).symm.trans h

end Json

namespace Manifest

open Json (AllOther Passes Reads allOther_optionalMember optionalMember
  passes_array passes_natural passes_object passes_optionalMember passes_quoted)

/-- What has been read of a dump names all that a dump must have. -/
structure File.Draft.Complete (d : File.Draft) : Prop where
  database : d.database.isSome
  filename : d.filename.isSome
  size : d.size.isSome
  tables : d.tables.isSome
  rows : d.rows.isSome

/-- What has been read of a manifest names all that a manifest must have. -/
structure Draft.Complete (d : Draft) : Prop where
  id : d.id.isSome
  timestamp : d.timestamp.isSome
  databases : d.databases.isSome
  files : d.files.isSome
  totalSize : d.totalSize.isSome
  compression : d.compression.isSome
  serverVersion : d.serverVersion.isSome
  serverType : d.serverType.isSome

theorem File.Draft.Complete.exists_build {d : File.Draft} (h : d.Complete) :
    ∃ f, d.build = some f ∧ f.checksum = d.checksum.join := by
  obtain ⟨database, filename, size, tables, rows, checksum⟩ := d
  obtain ⟨h₁, h₂, h₃, h₄, h₅⟩ := h
  rw [Option.isSome_iff_exists] at h₁ h₂ h₃ h₄ h₅
  obtain ⟨⟨_, rfl⟩, ⟨_, rfl⟩, ⟨_, rfl⟩, ⟨_, rfl⟩, ⟨_, rfl⟩⟩ := h₁, h₂, h₃, h₄, h₅
  exact ⟨_, rfl, by cases checksum <;> rfl⟩

theorem Draft.Complete.exists_build {d : Draft} (h : d.Complete) :
    ∃ m, d.build = some m ∧ m.profile = d.profile.join ∧ m.description = d.description.join := by
  obtain ⟨id, timestamp, databases, files, totalSize, compression, serverVersion, serverType,
    profile, description⟩ := d
  obtain ⟨h₁, h₂, h₃, h₄, h₅, h₆, h₇, h₈⟩ := h
  rw [Option.isSome_iff_exists] at h₁ h₂ h₃ h₄ h₅ h₆ h₇ h₈
  obtain ⟨⟨_, rfl⟩, ⟨_, rfl⟩, ⟨_, rfl⟩, ⟨_, rfl⟩⟩ := h₁, h₂, h₃, h₄
  obtain ⟨⟨_, rfl⟩, ⟨_, rfl⟩, ⟨_, rfl⟩, ⟨_, rfl⟩⟩ := h₅, h₆, h₇, h₈
  exact ⟨_, rfl, by cases profile <;> rfl, by cases description <;> rfl⟩

/-! ### The text of a dump -/

/-- The members that the text of a dump always has. -/
def File.required (f : File) : List (String × String) := [
  ("database", Json.quoted f.database),
  ("filename", Json.quoted f.filename),
  ("size", toString f.size),
  ("tables", toString f.tables),
  ("rows", toString f.rows)]

theorem File.text_eq (f : File) :
    f.text = Json.objectText 2 (f.required ++ (optionalMember "checksum" f.checksum ++ [])) := by
  rw [List.append_nil]
  rfl

theorem File.passes_required (f : File) : ∀ m ∈ f.required, Passes .array m.2 := by
  simp only [required, List.forall_mem_cons, passes_quoted, passes_natural, true_and]
  exact List.forall_mem_nil _

theorem File.reads_checksum (f : File) :
    Reads (Json.member "checksum" Json.text) f.text f.checksum := by
  rw [text_eq]
  have hother : AllOther "checksum" f.required := ⟨by simp [required], f.passes_required⟩
  exact Json.reads_optionalMember f.checksum hother (Json.allOther_nil _) 2

theorem File.passes_text (f : File) : Passes .array f.text :=
  passes_object (List.forall_mem_append.mpr
    ⟨f.passes_required, passes_optionalMember "checksum" f.checksum⟩) 2

/-! ### The text of a manifest -/

/-- The members of a manifest's text in front of its dumps. -/
def leading (m : Manifest) : List (String × String) := [
  ("id", Json.quoted m.id),
  ("timestamp", Json.quoted (m.timestamp.text "Z")),
  ("databases", Json.arrayText 1 (m.databases.map Json.quoted))]

/-- The members behind the dumps that a manifest's text always has. -/
def trailing (m : Manifest) : List (String × String) := [
  ("total_size", toString m.totalSize),
  ("compression", Json.quoted m.compression.key),
  ("server_version", Json.quoted m.serverVersion),
  ("server_type", Json.quoted m.serverType)]

/-- The member of the dumps. -/
def filesMember (m : Manifest) : String × String :=
  ("files", Json.arrayText 1 (m.files.map File.text))

/-- The members that a manifest's text always has. -/
def required (m : Manifest) : List (String × String) :=
  m.leading ++ m.filesMember :: m.trailing

theorem text_eq (m : Manifest) : m.text = Json.objectText 0 (m.required ++
    (optionalMember "profile" m.profile ++ optionalMember "description" m.description)) := by
  rw [text, List.append_assoc]
  rfl

theorem allOther_leading (m : Manifest) {key : String}
    (h : key ∉ ["id", "timestamp", "databases"]) : AllOther key m.leading := by
  constructor
  · simpa [leading] using h
  · have hdatabases := passes_array (List.forall_mem_map.mpr fun s (_ : s ∈ m.databases) =>
      passes_quoted s) 1
    simp only [leading, List.forall_mem_cons, passes_quoted, hdatabases, true_and]
    exact List.forall_mem_nil _

theorem allOther_trailing (m : Manifest) {key : String}
    (h : key ∉ ["total_size", "compression", "server_version", "server_type"]) :
    AllOther key m.trailing := by
  constructor
  · simpa [trailing] using h
  · simp only [trailing, List.forall_mem_cons, passes_quoted, passes_natural, true_and]
    exact List.forall_mem_nil _

theorem allOther_filesMember (m : Manifest) {key : String} (h : key ≠ "files") :
    AllOther key [m.filesMember] :=
  ⟨List.forall_mem_singleton.mpr h, List.forall_mem_singleton.mpr
    (passes_array (List.forall_mem_map.mpr fun f (_ : f ∈ m.files) => f.passes_text) 1)⟩

theorem allOther_required (m : Manifest) {key : String}
    (h : key ∉ ["id", "timestamp", "databases", "files", "total_size", "compression",
      "server_version", "server_type"]) : AllOther key m.required := by
  simp only [List.mem_cons, List.not_mem_nil, or_false, not_or] at h
  obtain ⟨h₁, h₂, h₃, h₄, h₅⟩ := h
  exact (m.allOther_leading (by simp [*])).append
    ((m.allOther_filesMember h₄).append (m.allOther_trailing (by simp [*])))

theorem reads_checksums (m : Manifest) :
    Reads (Json.member "files" (Json.array (Json.member "checksum" Json.text))) m.text
      (some (m.files.map (·.checksum))) := by
  have hfiles : Reads (Json.array (Json.member "checksum" Json.text)) m.filesMember.2
      (m.files.map (·.checksum)) := Json.reads_array_map 1 fun f _ => f.reads_checksum
  rw [text_eq, required, List.append_assoc, List.cons_append]
  exact hfiles.member (m.allOther_leading (by decide)) ((m.allOther_trailing (by decide)).append
    ((allOther_optionalMember (by decide) m.profile).append
      (allOther_optionalMember (by decide) m.description))) 0

theorem reads_profile (m : Manifest) :
    Reads (Json.member "profile" Json.text) m.text m.profile := by
  rw [text_eq]
  exact Json.reads_optionalMember m.profile (m.allOther_required (by decide))
    (allOther_optionalMember (by decide) m.description) 0

theorem reads_description (m : Manifest) :
    Reads (Json.member "description" Json.text) m.text m.description := by
  rw [text_eq, ← List.append_nil (optionalMember "description" _), ← List.append_assoc]
  exact Json.reads_optionalMember m.description ((m.allOther_required (by decide)).append
    (allOther_optionalMember (by decide) m.profile)) (Json.allOther_nil _) 0

/-- What comes back from the text of a manifest: all of it, and no member where there is no
value. -/
structure Survives (m : Manifest) : Prop where
  readBack : ofText m.text = .ok m
  profile : Json.whole (Json.member "profile" Json.text) m.text = .ok m.profile
  description : Json.whole (Json.member "description" Json.text) m.text = .ok m.description
  checksums : Json.whole (Json.member "files" (Json.array (Json.member "checksum" Json.text)))
    m.text = .ok (some (m.files.map (·.checksum)))

/-- A manifest survives writing and reading. Whoever has written a text, and in whatever order, the
members that may be missing are no condition for reading it. Where they are missing they are read
as absent. -/
theorem survives_of_sound {m : Manifest} (h : m.Sound) :
    m.Survives ∧
      (∀ source d, Json.whole (Json.record fields {} some) source = .ok d → d.Complete →
        ∃ m', ofText source = .ok m' ∧ m'.profile = d.profile.join ∧
          m'.description = d.description.join) ∧
      ∀ cs d rest, Json.record File.fields {} some cs = .ok (d, rest) → d.Complete →
        ∃ f, Json.record File.fields {} File.Draft.build cs = .ok (f, rest) ∧
          f.checksum = d.checksum.join := by
  refine ⟨⟨ofText_text h, m.reads_profile.whole, m.reads_description.whole,
    m.reads_checksums.whole⟩, fun source d hsource hcomplete => ?_,
    fun cs d rest hcs hcomplete => ?_⟩
  · obtain ⟨m', hbuild, hvalues⟩ := hcomplete.exists_build
    exact ⟨m', Json.whole_record_of_draft hsource hbuild, hvalues⟩
  · obtain ⟨f, hbuild, hchecksum⟩ := hcomplete.exists_build
    exact ⟨f, Json.record_of_draft hcs hbuild, hchecksum⟩

theorem survives_of_twoFiles :
    let m : Manifest := ⟨"20240301-120000", ⟨1709294400, 500000000⟩, ["a\"b", "c"],
      [⟨"a\"b", "a.sql", 18446744073709551615, 1, 2, none⟩, ⟨"c", "c.sql", 0, 0, 0, some ""⟩],
      7, .gzip, "8.0", "mysql", none, some "\x01"⟩
    let minimal := "\x7b\"id\":\"a\",\"timestamp\":\"2024-03-01T12:00:00Z\",\"databases\":[]," ++
      "\"files\":[],\"total_size\":0,\"compression\":\"\",\"server_version\":\"8\"," ++
      "\"server_type\":\"mysql\"\x7d"
    m.Sound ∧ m.Survives ∧
      ∃ m', ofText minimal = .ok m' ∧ m'.profile = none ∧ m'.description = none := by
  intro m minimal
  have hsound : m.Sound := by decide
  let d : Draft := ⟨some "a", some ⟨1709294400, 0⟩, some [], some [], some 0, some .none,
    some "8", some "mysql", none, none⟩
  have hminimal : Json.whole (Json.record fields {} some) minimal = .ok d := by decide +kernel
  obtain ⟨hsurvives, hload, -⟩ := survives_of_sound hsound
  exact ⟨hsound, hsurvives, hload minimal d hminimal (by constructor <;> rfl)⟩

end Manifest

end SqlBackup
