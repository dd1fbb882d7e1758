import Mathlib
import SqlBackup.Proofs.Backup.Catalogue
import SqlBackup.Proofs.Files.Looking

/-!
# What is told of the backups below a root

To list the backups or to get one, files are only looked at. Where a host tells truly what it is
asked then, what comes of it are the manifests that are there. Whether the dumps are is not looked at.
-/
namespace SqlBackup

open Files.Path (IsName join)
open Scripted (Tree Place)
open Scripted.Tree (HasEmpty mem_namesAt leadsTo_join)

namespace Backup

variable {σ : Type} {host : Host σ} {files : σ → Tree} {s : σ} {base t : Tree} {place : Place}
  {settings : Settings} {live : List Manifest} {m : Manifest} {name id path : String}

/-! ### The backup of a name -/

/-- The backup with this name, if it is there. -/
def named? (live : List Manifest) (name : String) : Option Manifest :=
  live.find? (·.id == name)

theorem named?_eq_none : named? live name = none ↔ ∀ m ∈ live, m.id ≠ name := by
  simp [named?]

theorem named?_eq_some (h : (live.map (·.id)).Nodup) :
    named? live name = some m ↔ m ∈ live ∧ m.id = name := by
  constructor
  · intro hfound
    exact ⟨List.mem_of_find?_eq_some hfound, by simpa using List.find?_some hfound⟩
  · rintro ⟨hm, rfl⟩
    cases hfound : named? live m.id with
    | none => exact absurd rfl (named?_eq_none.mp hfound m hm)
    | some m' =>
      have hid : m'.id = m.id := by simpa using List.find?_some hfound
      rw [List.inj_on_of_nodup_map h (List.mem_of_find?_eq_some hfound) hm hid]

/-- What is told of one backup: its manifest, that it is not there, or that it cannot be. -/
def told (live : List Manifest) (id : String) : Except Fault Manifest :=
  if isName id then
    match named? live id with
    | some m => .ok m
    | none => .error (.backupNotFound id)
  else .error (.invalidOptions ("Invalid backup id '" ++ id ++ "'"))

/-- A text that can name a backup names something in a directory. -/
theorem isFileName_of_isName (h : isName id = true) : IsName id := by
  obtain ⟨⟨c, hhead, hdot⟩, hall⟩ := isName_iff.mp h
  have hne {text : String} (htext : text.toList.head? ≠ some c) : id ≠ text :=
    fun heq => htext (heq ▸ hhead)
  refine ⟨fun hslash => ?_, hne (by simp), hne ?_, hne ?_⟩
  · cases hall _ hslash
  · simpa using Ne.symm hdot
  · simpa using Ne.symm hdot

/-- These are the manifests below a root, each in the directory of its name. -/
structure Visible (root : String) (place : Place) (there : List Manifest) (t : Tree) : Prop where
  has : t.Has root place
  nodup : (t.namesAt place).Nodup
  names : ∀ name ∈ t.namesAt place, IsName name
  ids : (there.map (·.id)).Nodup
  directory : ∀ m ∈ there, t.Has (join root m.id) (place ++ [m.id])
  stored : ∀ m ∈ there,
    t.open? (Manifest.pathIn (join root m.id)) = .ok (.file (Text.Utf8.encode m.text))
  hidden : ∀ name, (∀ m ∈ there, m.id ≠ name) →
    t.at? (place ++ [name] ++ [Manifest.filename]) = none

theorem Catalogue.visible {root : String} (hbase : base.HasEmpty root place)
    (h : Catalogue base root place live t) : Visible root place live t where
  has := h.has hbase
  nodup := h.nodup
  names := h.names
  ids := h.ids
  directory m hm := (h.kept m hm).has
  stored m hm := (h.kept m hm).stored
  hidden := h.hidden

/-- A path that leads nowhere else than to a place where nothing is does not open. -/
theorem open?_ne_ok_of_free {other : Place} (hleads : t.LeadsTo path other)
    (hfree : t.at? other = none) (entry : Files.Entry) : t.open? path ≠ .ok entry := by
  intro hopen
  rw [Tree.open?] at hopen
  split at hopen
  · cases hopen
  · next p hp =>
    obtain rfl := hleads p hp
    rw [hfree] at hopen
    cases hopen

namespace Visible

variable (h : Visible settings.root place live t)
include h

/-- A directory whose name is that of no backup has no manifest. -/
theorem open?_hidden (hname : IsName name) (hnone : named? live name = none) (entry : Files.Entry) :
    t.open? (Manifest.pathIn (settings.directory name)) ≠ .ok entry := by
  have hleads := (leadsTo_join h.has.resolves hname).join
    (isDirectory_of_isName settings.root hname) Manifest.isName_filename
  exact open?_ne_ok_of_free hleads (h.hidden name (named?_eq_none.mp hnone)) entry

/-- Among the names below the root, those that name backups name all of them, and each once. -/
theorem perm_named? : ((t.namesAt place).filterMap (named? live)).Perm live := by
  have hlive : live.Nodup := h.ids.of_map
  have hfound : ((t.namesAt place).filterMap (named? live)).Nodup := by
    refine h.nodup.filterMap fun a b m ha hb => ?_
    exact ((named?_eq_some h.ids).mp ha).2.symm.trans ((named?_eq_some h.ids).mp hb).2
  refine (List.perm_ext_iff_of_nodup hfound hlive).mpr fun m => ?_
  rw [List.mem_filterMap]
  constructor
  · rintro ⟨name, -, hm⟩
    exact ((named?_eq_some h.ids).mp hm).1
  · intro hm
    exact ⟨m.id, mem_namesAt.mpr ⟨_, (h.directory m hm).isThere⟩,
      (named?_eq_some h.ids).mpr ⟨hm, rfl⟩⟩

end Visible

/-! ### Looking -/

section Looking

variable (hstill : host.Still files) (htells : host.Tells files t) (hs : files s = t)
include hstill htells hs

theorem ends_looks {call : Files.Call} (hcall : call.Looks) :
    (Job.request (.file call)).Ends host s fun reply s' =>
      reply = (t.call call).1 ∧ files s' = t := by
  refine Job.ends_request (htells call s hcall hs) ⟨rfl, ?_⟩
  exact (hstill call s hcall).trans hs

theorem succeeds_kindOf (path : String) :
    (kindOf path).Succeeds host s fun kind s' =>
      kind = (t.open? path).toOption.map Files.Entry.kind ∧ files s' = t :=
  Work.succeeds_ofJob (ends_looks hstill htells hs (.kind path))

theorem succeeds_readManifest (hsound : m.Sound)
    (hstored : t.open? (Manifest.pathIn path) = .ok (.file (Text.Utf8.encode m.text))) :
    (Manifest.read path).Succeeds host s fun a s' => a = m ∧ files s' = t := by
  have hanswer := htells (.read (Manifest.pathIn path)) s (.read _) hs
  have hread : (t.call (.read (Manifest.pathIn path))).1 =
      .ok ⟨Text.Utf8.encode m.text, none⟩ := Files.Entry.map_content_eq_ok.mpr hstored
  rw [hread] at hanswer
  refine (Manifest.succeeds_read_of_answer hsound hanswer).mono ?_
  rintro a _ ⟨rfl, rfl⟩
  exact ⟨rfl, (hstill _ s (.read _)).trans hs⟩

/-- Where a manifest is stored under a name, it is got under that name. -/
theorem succeeds_getStored (hid : isName id = true) (hsound : m.Sound)
    (hstored : t.open? (Manifest.pathIn (settings.directory id)) =
      .ok (.file (Text.Utf8.encode m.text))) :
    (get settings id).Succeeds host s fun a s' => a = m ∧ files s' = t := by
  rw [get, requireName, hid]
  simp only [if_true, Work.ofResult_bind]
  refine (succeeds_kindOf hstill htells hs _).bind ?_
  rintro _ s₁ ⟨rfl, hs₁⟩
  rw [hstored]
  exact succeeds_readManifest hstill htells hs₁ hsound hstored

variable (h : Visible settings.root place live t) (hsound : ∀ m ∈ live, m.Sound)
include h hsound

/-- In the directory of a name the backup of that name is found, and nothing if there is none. -/
theorem Visible.succeeds_find? (hname : IsName name) :
    (find? (settings.directory name)).Succeeds host s fun found s' =>
      found = named? live name ∧ files s' = t := by
  rw [find?]
  refine (succeeds_kindOf hstill htells hs _).bind fun kind s₁ ⟨hkind, hs₁⟩ => ?_
  cases hfound : named? live name with
  | none =>
    split
    · refine (succeeds_kindOf hstill htells hs₁ _).bind fun kind' s₂ ⟨hkind', hs₂⟩ => ?_
      have hopen := h.open?_hidden hname hfound
      cases hentry : t.open? (Manifest.pathIn (settings.directory name)) with
      | ok entry => exact absurd hentry (hopen entry)
      | error fault =>
        rw [hkind', hentry]
        exact Work.succeeds_pure ⟨rfl, hs₂⟩
    · exact Work.succeeds_pure ⟨rfl, hs₁⟩
  | some m =>
    obtain ⟨hm, rfl⟩ := (named?_eq_some h.ids).mp hfound
    have hthere : t.open? (settings.directory m.id) = .ok .directory := (h.directory m hm).open?_eq
    have hstored : t.open? (Manifest.pathIn (settings.directory m.id)) =
        .ok (.file (Text.Utf8.encode m.text)) := h.stored m hm
    rw [hkind, hthere]
    refine (succeeds_kindOf hstill htells hs₁ _).bind fun kind' s₂ ⟨hkind', hs₂⟩ => ?_
    rw [hkind', hstored]
    refine Work.Succeeds.bind (m := fun result s' => result = .ok m ∧ files s' = t)
      (Work.succeeds_outcome ?_) ?_
    · refine (succeeds_readManifest hstill htells hs₂ (hsound m hm) hstored).mono ?_
      rintro a s' ⟨rfl, hs'⟩
      exact ⟨rfl, hs'⟩
    · rintro _ s' ⟨rfl, hs'⟩
      exact Work.succeeds_pure ⟨rfl, hs'⟩

theorem Visible.succeeds_findAll {names : List String} (hnames : ∀ name ∈ names, IsName name) :
    (findAll settings names).Succeeds host s fun found s' =>
      found = names.filterMap (named? live) ∧ files s' = t := by
  induction names generalizing s with
  | nil => exact Work.succeeds_pure ⟨rfl, hs⟩
  | cons name names ih =>
    rw [List.forall_mem_cons] at hnames
    rw [findAll]
    refine (h.succeeds_find? hstill htells hs hsound hnames.1).bind ?_
    rintro found s₁ ⟨rfl, hs₁⟩
    refine (ih hs₁ hnames.2).bind ?_
    rintro others s₂ ⟨rfl, hs₂⟩
    refine Work.succeeds_pure ⟨?_, hs₂⟩
    cases hfound : named? live name <;> simp [hfound]

/-- The manifests that are there are listed, each once. -/
theorem Visible.succeeds_list : (list settings).Succeeds host s fun found _ => found.Perm live := by
  have hroot := h.has
  rw [list]
  refine (succeeds_kindOf hstill htells hs _).bind fun kind s₁ ⟨hkind, hs₁⟩ => ?_
  rw [hkind, hroot.open?_eq]
  refine Work.Succeeds.bind (m := fun names s' => names = t.namesAt place ∧ files s' = t)
    (Work.succeeds_ofExcept ?_) ?_
  · refine (ends_looks hstill htells hs₁ (.list settings.root)).mono ?_
    rintro answer s' ⟨rfl, hs'⟩
    exact ⟨_, Scripted.Tree.list_eq hroot, rfl, hs'⟩
  · rintro names s₂ ⟨rfl, hs₂⟩
    refine (h.succeeds_findAll hstill htells hs₂ hsound h.names).bind ?_
    rintro found s₃ ⟨rfl, -⟩
    exact Work.succeeds_pure ((List.mergeSort_perm _ _).trans (h.perm_named?))

/-- What is told of a backup is what is there of it. -/
theorem Visible.ends_get (id : String) :
    (get settings id).run.Ends host s fun result _ => result = told live id := by
  cases hid : isName id with
  | false =>
    rw [get, requireName, told, hid]
    exact rfl
  | true =>
    cases hfound : named? live id with
    | none =>
      rw [get, requireName, told, hid, hfound]
      simp only [if_true, Work.ofResult_bind]
      rw [Work.run_bind_eq, Job.ends_bind]
      refine Job.Ends.mono (succeeds_kindOf hstill htells hs _) ?_
      rintro _ s₁ ⟨kind, rfl, hkind, hs₁⟩
      have hopen := h.open?_hidden (isFileName_of_isName hid) hfound
      cases hentry : t.open? (Manifest.pathIn (settings.directory id)) with
      | ok entry => exact absurd hentry (hopen entry)
      | error fault =>
        rw [hkind, hentry]
        exact rfl
    | some m =>
      obtain ⟨hm, rfl⟩ := (named?_eq_some h.ids).mp hfound
      refine Job.Ends.mono (succeeds_getStored hstill htells hs hid (hsound m hm) (h.stored m hm)) ?_
      rintro _ s₂ ⟨a, rfl, rfl, -⟩
      rw [told, hid, hfound]
      rfl

end Looking

section Files

variable (hfiles : host.HasFiles files) (htells : host.Tells files t) (hs : files s = t)
include hfiles htells hs

theorem succeeds_get (hid : isName id = true) (hsound : m.Sound)
    (hstored : t.open? (Manifest.pathIn (settings.directory id)) =
      .ok (.file (Text.Utf8.encode m.text))) :
    (get settings id).Succeeds host s fun a s' => a = m ∧ files s' = t :=
  succeeds_getStored hfiles.still htells hs hid hsound hstored

variable (hbase : base.HasEmpty settings.root place)
  (h : Catalogue base settings.root place live t) (hsound : ∀ m ∈ live, m.Sound)
include hbase h hsound

/-- The backups that are there are listed, each once. -/
theorem succeeds_list : (list settings).Succeeds host s fun found _ => found.Perm live :=
  (h.visible hbase).succeeds_list hfiles.still htells hs hsound

theorem ends_get (id : String) :
    (get settings id).run.Ends host s fun result _ => result = told live id :=
  (h.visible hbase).ends_get hfiles.still htells hs hsound id

end Files

end Backup

end SqlBackup
