import Mathlib
import SqlBackup.Proofs.Backup.Changes

/-!
# The lifetime of backups

Below a root that was empty backups are made, some to their end and some not, and backups are
deleted. Whenever it is asked then, those are listed whose manifest got its name and that were not
deleted since, and all that their manifests say of their files is true.
-/
namespace SqlBackup.Backup

open Files.Path (join)
open Scripted (Tree Place World)
open Scripted.Tree (CutOff HasEmpty)

variable {σ : Type} {host : Host σ} {files : σ → Tree} {s : σ} {t : Tree} {settings : Settings}
  {request : Request} {events : List Event}

/-- What has been done below a root. -/
inductive Event where
  /-- A backup was made up to some moment. By then this had been asked, and the backup may have come
  to its manifest. -/
  | created (talk : List Asked) (value? : Option Manifest)
  | deleted (id : String) (result : Except Fault Unit)

/-- The backups whose manifest got its name, and that were not deleted since. The last event is the
first of the list. -/
def present : List Event → List Manifest
  | [] => []
  | .created talk value? :: events =>
      if talk.any Asked.publishes then value?.toList ++ present events else present events
  | .deleted id (.ok ()) :: events => (present events).filter (·.id != id)
  | .deleted _ (.error _) :: events => present events

/-- What can be done below a root that is empty at first, and the files then. Between two of the
events anything but the files may change. The removal of a directory that a backup had when it
failed can itself fail: to the files that is what it is to be cut off. -/
inductive Log (host : Host σ) (files : σ → Tree) (root : String) : List Event → Tree → Prop
  | empty {t : Tree} {place : Place} (hempty : t.HasEmpty root place) : Log host files root [] t
  | created {events : List Event} {settings : Settings} {request : Request} {listed : List String}
      {s s' : σ} {talk : List Asked} {calls : List Files.Call} {value? : Option Manifest} {u : Tree}
      (hlog : Log host files root events (files s)) (hroot : settings.root = root)
      (hlisted : request.databases = [] → Lists host settings s listed) (hnodup : listed.Nodup)
      (hnames : ∀ database ∈ meant request.databases listed, '/' ∉ database.toList)
      (hreaches : Plan.Reaches host (plan settings request) s talk calls value? s')
      (hcut : (files s').CutOff calls u) : Log host files root (.created talk value? :: events) u
  | deleted {events : List Event} {settings : Settings} {s : σ} (id : String)
      {result : Except Fault Unit} (hlog : Log host files root events (files s))
      (hroot : settings.root = root)
      (hresult : ((delete settings id).run.run host s).1.result = .ok result) :
      Log host files root (.deleted id result :: events)
        (files ((delete settings id).run.run host s).2)

/-- A backup counts as made exactly if it has come to its manifest. -/
def Event.IsPublished : Event → Prop
  | .created talk value? => talk.any Asked.publishes = value?.isSome
  | .deleted _ _ => True

theorem Log.catalogue {root : String} (hfiles : host.HasFiles files)
    (h : Log host files root events t) :
    (∀ event ∈ events, event.IsPublished) ∧ ∃ base place, base.HasEmpty root place ∧
      Catalogue base root place (present events) t := by
  induction h with
  | empty hempty => exact ⟨by simp, _, _, hempty, catalogue_of_hasEmpty hempty⟩
  | created _ hroot hlisted hnodup hnames hreaches hcut ih =>
    obtain ⟨hpublished, base, place, hbase, hcatalogue⟩ := ih
    subst hroot
    obtain ⟨hany, hnext⟩ :=
      hcatalogue.create hfiles hbase hlisted hnodup hnames hreaches hcut
    refine ⟨List.forall_mem_cons.mpr ⟨hany, hpublished⟩, base, place, hbase, ?_⟩
    rw [present, hany]
    split
    · exact hnext
    · next hnone =>
      rw [Bool.not_eq_true, Option.isSome_eq_false_iff, Option.isNone_iff_eq_none] at hnone
      rwa [hnone] at hnext
  | @deleted events settings s id result _ hroot hresult ih =>
    obtain ⟨hpublished, base, place, hbase, hcatalogue⟩ := ih
    subst hroot
    refine ⟨List.forall_mem_cons.mpr ⟨trivial, hpublished⟩, base, place, hbase, ?_⟩
    have hdeleted := Job.Works.run (hcatalogue.works_delete hfiles hbase id) hresult
    cases result with
    | ok value => exact hdeleted
    | error fault => exact hdeleted

/-- A backup that is made to its end is there then. -/
theorem Log.create {root : String} (hfiles : host.HasFiles files)
    (hlog : Log host files root events (files s)) (hroot : settings.root = root)
    {listed : List String} (hlisted : request.databases = [] → Lists host settings s listed)
    (hnodup : listed.Nodup)
    (hnames : ∀ database ∈ meant request.databases listed, '/' ∉ database.toList)
    {m : Manifest} {s' : σ} (hcreate : create host settings request s = (.ok (.ok m), s')) :
    ∃ talk, Log host files root (.created talk (some m) :: events) (files s') ∧
      present (.created talk (some m) :: events) = m :: present events := by
  have hcarries := Plan.carriesOut_carryOut host (plan settings request) s
  rw [← Backup.create, hcreate] at hcarries
  obtain ⟨talk, hreaches⟩ := hcarries.reaches
  have hcreated : Log host files root (.created talk (some m) :: events) (files s') :=
    .created hlog hroot hlisted hnodup hnames hreaches .nothing
  refine ⟨talk, hcreated, ?_⟩
  have hany : talk.any Asked.publishes = true := (hcreated.catalogue hfiles).1 _ List.mem_cons_self
  rw [present, hany]
  rfl

/-- What is told of the backups below a root at some time. -/
structure Shown (host : Host σ) (files : σ → Tree) (settings : Settings) (events : List Event)
    (s : σ) : Prop where
  /-- A backup is there if its manifest got its name, and then the backup has come to it. -/
  published : ∀ event ∈ events, event.IsPublished
  /-- The backups that are there are listed. -/
  list : ∃ found, ((list settings).run.run host s).1.result = .ok (.ok found) ∧
    found.Perm (present events)
  ids : ((present events).map (·.id)).Nodup
  /-- A name gives the backup that has it, if there is one and if it is well-formed. -/
  get : ∀ id, ((get settings id).run.run host s).1.result = .ok (told (present events) id)
  wellFormed : ∀ m ∈ present events, isName m.id = true ↔ m.timestamp.date.year ≤ 9999
  /-- All dumps are there, with the sizes and digests recorded for them. -/
  dumps : ∀ m ∈ present events, ∀ f ∈ m.files,
    f.Records ((files s).open? (join (settings.directory m.id) f.filename))

/-- Whatever has been done below a root, and whenever what did it was cut off: the backups that are
there are those whose manifest got its name and that were not deleted since. They are listed, each
once, they can be asked for by their well-formed names, and their dumps are as recorded. -/
theorem shown_of_log (hfiles : host.HasFiles files)
    (h : Log host files settings.root events (files s)) (hsound : ∀ m ∈ present events, m.Sound)
    (htells : host.Tells files (files s)) : Shown host files settings events s := by
  obtain ⟨hpublished, base, place, hbase, hcatalogue⟩ := h.catalogue hfiles
  refine ⟨hpublished, ?_, hcatalogue.ids, fun id => ?_, fun m hm => ?_, fun m hm => ?_⟩
  · obtain ⟨result, hresult, found, rfl, hfound⟩ :=
      (succeeds_list hfiles htells rfl hbase hcatalogue hsound).run
    exact ⟨found, hresult, hfound⟩
  · obtain ⟨result, hresult, rfl⟩ :=
      (ends_get hfiles htells rfl hbase hcatalogue hsound id).run
    exact hresult
  · exact (hcatalogue.kept m hm).named.isName_iff
  · exact (hcatalogue.kept m hm).records

/-- What has been made in the end, if anything. -/
def made? {α : Type} (result : Except String (Except Fault α)) : Option α :=
  result.toOption.bind Except.toOption

theorem made?_eq_some {α : Type} {result : Except String (Except Fault α)} {a : α} :
    made? result = some a ↔ result = .ok (.ok a) := by
  rcases result with text | fault | b <;> simp [made?, Except.toOption]

/-- A world with an empty root and a database to name, at some time. -/
def waiting (now : Calendar.Instant) (files : Tree) : World := { crowded [] 9 files with now }

theorem hasEmpty_waiting : (⟨[(["b"], .directory)]⟩ : Tree).HasEmpty "b" ["b"] := by
  refine ⟨⟨by decide, by decide⟩, fun other hbelow => ?_⟩
  have hne : other ≠ ["b"] := fun heq => hbelow fun _ => heq
  have hempty : other ≠ [] := by
    rintro rfl
    exact hbelow fun h => absurd (List.prefix_nil.mp h) (by simp)
  simp [Tree.at?, hempty, Ne.symm hne]

/-- A request for one database. -/
def shopOnly : Request := { databases := ["shop"] }

/-- A request that names its databases is not about those that a server lists. -/
theorem lists_of_named {database : String} {databases : List String} (s : σ)
    (h : request.databases = database :: databases) :
    request.databases = [] → Lists host settings s [] :=
  fun hempty => absurd (h.symm.trans hempty) (List.cons_ne_nil _ _)

/-- A backup is cut off when it has its directory, and in the same second another one is made. -/
theorem shown_of_leftover : ∃ talk talk' m w,
    Log Scripted.host World.files "b" [.created talk' (some m), .created talk none] w.files ∧
    present [.created talk' (some m), .created talk none] = [m] ∧
    m.id = "20240301-120000-1" ∧
    Shown Scripted.host World.files oneByOne [.created talk' (some m), .created talk none] w ∧
    ((get oneByOne "20240301-120000").run.run Scripted.host w).1.result =
      .ok (.error (.backupNotFound "20240301-120000")) := by
  generalize hstart : waiting ⟨1709294400, 0⟩ ⟨[(["b"], .directory)]⟩ = w
  have hempty : w.files.HasEmpty "b" ["b"] := hstart ▸ hasEmpty_waiting
  have hnames : ∀ database ∈ meant ["shop"] [], '/' ∉ database.toList := by decide
  -- The first one has made its plan, and no export has begun.
  have hfirst : ends ((plan oneByOne shopOnly).run.run Scripted.host w).1.result =
      some true := by
    subst hstart
    decide +kernel
  obtain ⟨plan₁, hplan₁⟩ := exists_value hfirst
  obtain ⟨talk, htalk⟩ := Job.exists_advances hplan₁
  generalize hleft : ((plan oneByOne shopOnly).run.run Scripted.host w).2 = w₁ at htalk
  have hlog₁ : Log Scripted.host World.files "b" [.created (talk ++ []) none] w₁.files :=
    .created (.empty hempty) rfl (lists_of_named w rfl) List.nodup_nil hnames
      (.running htalk .nothing) .nothing
  -- The second one is made to its end.
  generalize hnow : waiting ⟨1709294400, 0⟩ w₁.files = w₂
  generalize hnext : create Scripted.host oneByOne shopOnly w₂ = second
  have hmade : (made? second.1).map (·.id) = some "20240301-120000-1" ∧
      ∀ m ∈ made? second.1, m.Sound := by
    subst hnext hnow hleft hstart
    decide +kernel
  obtain ⟨m, hm, hid⟩ := Option.map_eq_some_iff.mp hmade.1
  have hends : second = (.ok (.ok m), second.2) := Prod.ext (made?_eq_some.mp hm) rfl
  have hsame : w₂.files = w₁.files := hnow ▸ rfl
  obtain ⟨talk', hlog, hpresent⟩ := (hsame ▸ hlog₁).create Scripted.hasFiles_host rfl
    (lists_of_named w₂ rfl) List.nodup_nil hnames (hnext.trans hends)
  have hnone : present [.created (talk ++ []) none] = [] := by
    rw [present]
    split
    · rfl
    · rfl
  rw [hnone] at hpresent
  have hsound : ∀ found ∈ present [.created talk' (some m), .created (talk ++ []) none],
      found.Sound := by
    rw [hpresent]
    exact List.forall_mem_singleton.mpr (hmade.2 m hm)
  have hshown : Shown Scripted.host World.files oneByOne _ second.2 :=
    shown_of_log Scripted.hasFiles_host hlog hsound (Scripted.tells_host _)
  refine ⟨_, talk', m, second.2, hlog, hpresent, hid, hshown, ?_⟩
  rw [hshown.get, hpresent, told, named?_eq_none.mpr (by simp [hid])]
  rfl

/-- The name of a backup that is made in the year 10000 or later is not well-formed: the backup is
listed, but it cannot be asked for. -/
theorem refused_of_late : ∃ m w,
    create Scripted.host oneByOne shopOnly (waiting ⟨253402300800, 0⟩ ⟨[(["b"], .directory)]⟩) =
      (.ok (.ok m), w) ∧
    ((list oneByOne).run.run Scripted.host w).1.result = .ok (.ok [m]) ∧
    ((get oneByOne m.id).run.run Scripted.host w).1.result =
      .ok (.error (.invalidOptions "Invalid backup id '+100000101-000000'")) := by
  generalize hmade : create Scripted.host oneByOne shopOnly
    (waiting ⟨253402300800, 0⟩ ⟨[(["b"], .directory)]⟩) = made
  have hid : (made? made.1).map (·.id) = some "+100000101-000000" ∧
      ∀ m ∈ made? made.1, m.Sound := by
    subst hmade
    decide +kernel
  obtain ⟨m, hm, hname⟩ := Option.map_eq_some_iff.mp hid.1
  have hends : made = (.ok (.ok m), made.2) := Prod.ext (made?_eq_some.mp hm) rfl
  obtain ⟨talk, hlog, hpresent⟩ := (Log.empty hasEmpty_waiting).create Scripted.hasFiles_host rfl
    (lists_of_named _ rfl) List.nodup_nil (by decide) (hmade.trans hends)
  obtain ⟨-, base, place, hbase, hcatalogue⟩ := hlog.catalogue Scripted.hasFiles_host
  rw [hpresent] at hcatalogue
  obtain ⟨result, hresult, found, rfl, hfound⟩ := (succeeds_list Scripted.hasFiles_host
    (Scripted.tells_host _) rfl hbase hcatalogue (by simpa [present] using hid.2 m hm)).run
  rw [List.perm_singleton.mp hfound] at hresult
  refine ⟨m, made.2, hends, hresult, ?_⟩
  rw [hname]
  rfl

end SqlBackup.Backup
