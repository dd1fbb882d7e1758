import Mathlib
import SqlBackup.Backup.Creation
import SqlBackup.Proofs.Backup.Directory
import SqlBackup.Proofs.Files.Host
import SqlBackup.Proofs.Manifest.Storage
import SqlBackup.Proofs.Pool.Schedule
import SqlBackup.Proofs.Pool.Shares

/-!
# Whole backups or none

Each export of a backup works on a dump of its own in the directory of the backup. What it records
of the dump is true of the file, whatever the other exports do in the meantime.

Whatever fails, and in whatever order the exports of a backup take turns, there is a backup in the
end that holds all that its manifest says, or there is nothing of it: what was there before is
spared. Only the directories on the way to the root stay, once they have been made.
-/
namespace SqlBackup

open Files (Entry)
open Files.Path (IsName join)
open Scripted (Tree Place)

/-- The size and the digest are those of this file. -/
def Manifest.File.Records (f : Manifest.File) (entry : Except IoFault Entry) : Prop :=
  ∃ bytes, entry = .ok (.file bytes) ∧ f.size = bytes.length ∧
    f.checksum = some (Digest.Sha256.hex bytes)

namespace Backup

/-! ### Names of dumps -/

theorem toList_dumpName (database : String) (c : Compression) :
    (dumpName database c).toList = database.toList ++ ".sql".toList ++ c.suffix.toList := by
  rw [dumpName, String.toList_append, String.toList_append]

theorem dumpName_injective (c : Compression) : Function.Injective (dumpName · c) := by
  intro a b h
  have hlist : (dumpName a c).toList = (dumpName b c).toList := congrArg String.toList h
  rw [toList_dumpName, toList_dumpName, List.append_assoc, List.append_assoc] at hlist
  exact String.toList_inj.mp (List.append_cancel_right hlist)

theorem isName_dumpName {database : String} (h : '/' ∉ database.toList) (c : Compression) :
    IsName (dumpName database c) := by
  have hlength : 4 ≤ (dumpName database c).toList.length := by
    rw [toList_dumpName, List.length_append, List.length_append]
    have hsql : ".sql".toList.length = 4 := rfl
    omega
  refine ⟨?_, ?_, ?_, ?_⟩
  · rw [toList_dumpName, List.mem_append, List.mem_append]
    rintro ((hmem | hmem) | hmem)
    · exact h hmem
    · simp at hmem
    · cases c <;> simp [Compression.suffix] at hmem
  · intro heq
    simp [heq] at hlength
  · intro heq
    simp [heq] at hlength
  · intro heq
    simp [heq] at hlength

/-! ### A single export -/

section Export

variable {σ : Type} {host : Host σ} {files : σ → Tree} {t : Tree} {place : Place}
  {directory name : String} {own : Except IoFault Entry}
  (hfiles : host.HasFiles files) (hfresh : t.Fresh directory place)
  (hname : IsName name)
include hfiles hfresh hname

theorem works_exportDatabase (s : Session) {options : Export.Options}
    (hpath : options.path = join directory name) :
    (Export.database s options).Works host (fileShare files t place directory name) own
      (fun stats own => own.map Tree.size = .ok stats.fileSize) fun _ _ => True := by
  have hasked (request : SqlBackup.Request) (own : Except IoFault Entry)
      (h : request.IsOn options.path) :
      request.Works host (fileShare files t place directory name) own fun _ _ => True :=
    works_isOn hfiles hfresh hname (hpath ▸ h)
  rw [Export.database]
  refine (Work.works_outcome ?_).bind (m := fun _ _ => True) fun result own' _ => ?_
  · refine Job.Works.mono (Job.Asks.works (Export.asks_writeConsistently s options) hasked)
      fun result own' _ => ?_
    cases result with
    | error fault => trivial
    | ok stats => trivial
  · cases result with
    | ok stats =>
      rw [hpath]
      refine Work.Works.bind (Work.works_ofExcept
        ((works_size hfiles hfresh hname).mono fun reply own' hreply => ?_))
        fun fileSize own' hsize => Work.works_pure hsize
      cases reply with
      | error fault => trivial
      | ok n => exact hreply n rfl
    | error fault =>
      refine Work.Works.bind (Work.works_ofJob
        (Job.Asks.works (Export.asks_discard options.path) hasked)) fun _ own' _ => ?_
      exact Work.works_fail trivial

theorem works_digest :
    (Dump.digest (join directory name)).Works host (fileShare files t place directory name) own
      (fun checksum own' => own' = own ∧
        ∃ bytes, own = .ok (.file bytes) ∧ checksum = Digest.Sha256.hex bytes)
      fun _ _ => True := by
  rw [Dump.digest, Dump.bytesOf]
  refine Work.Works.bind (m := fun bytes own' => own' = own ∧ own = .ok (.file bytes)) ?_
    fun bytes own' h => Work.works_pure ⟨h.1, bytes, h.2, rfl⟩
  refine Work.Works.bind (Work.works_ofExcept
    ((works_read hfiles hfresh hname).mono fun reply own' hreply => ?_))
    (m := fun content own' => ∀ bytes, content = ⟨bytes, none⟩ →
      own' = own ∧ own = .ok (.file bytes)) fun content own' hcontent => ?_
  · cases reply with
    | error fault => trivial
    | ok content => exact fun bytes hbytes => hreply bytes (congrArg _ hbytes)
  · obtain ⟨bytes, failure⟩ := content
    cases failure with
    | none => exact Work.works_ofResult (hcontent bytes rfl)
    | some fault => exact Work.works_ofResult trivial

/-- What an export records is true of its dump. -/
theorem works_exportOne {options : Export.Options} (index total : Nat)
    (hpath : options.path = join directory name)
    (hdump : name = dumpName options.database options.compression) :
    (exportOne options index total).Works host (fileShare files t place directory name) own
      (fun f own => f.database = options.database ∧ f.filename = name ∧ f.Records own)
      fun _ _ => True := by
  have htell (event : Progress.Event) (own : Except IoFault Entry) : (Work.tell event).Works host
      (fileShare files t place directory name) own (fun _ own' => own' = own) fun _ _ => True :=
    Work.works_ofJob (works_silent hfiles (by simp))
  rw [exportOne]
  refine (htell _ own).bind fun _ own₁ _ => ?_
  refine Work.Works.bind (m := fun _ _ => True) ?_ fun s own₂ _ => ?_
  · exact Work.works_ofExcept ((works_silent hfiles (by simp)).mono fun reply own' _ => by
      cases reply <;> trivial)
  · refine (works_exportDatabase hfiles hfresh hname s hpath).bind
      fun stats own₃ hsize => ?_
    rw [hpath]
    refine (works_digest hfiles hfresh hname).bind fun checksum own₄ hdigest => ?_
    obtain ⟨rfl, bytes, rfl, rfl⟩ := hdigest
    refine (htell _ _).bind fun _ own₅ hsame => ?_
    obtain rfl := hsame
    exact Work.works_pure ⟨rfl, hdump.symm, bytes, rfl, (Except.ok.inj hsize).symm, rfl⟩

end Export

end Backup

end SqlBackup

namespace SqlBackup.Backup

open Files (Entry)
open Files.Path (IsName join)
open Scripted (Tree Place World)
open Scripted.Tree (AgreeOff Alike Fresh Inside Paved Spared)

variable {σ : Type} {host : Host σ} {files : σ → Tree} {s : σ} {t : Tree} {place : Place}
  {settings : Settings} {request : Request} {draft : Draft}

/-! ### The dumps of a backup -/

/-- The database that is exported at this place. -/
def Draft.databaseAt (draft : Draft) (i : Nat) : String := draft.databases.getD i ""

def Draft.dumpAt (draft : Draft) (i : Nat) : String :=
  dumpName (draft.databaseAt i) draft.compression

/-- Each export has its dump for its own. -/
def dumpShares (files : σ → Tree) (t : Tree) (place : Place) (directory : String)
    (draft : Draft) : Pool.Shares σ (Except IoFault Entry) where
  kept s := t.Inside place (files s)
  allowed i s s' := AgreeOff (place ++ [draft.dumpAt i]) (files s) (files s')
  own i s := (files s).open? (join directory (draft.dumpAt i))

/-- What an export that succeeds has recorded. -/
def Draft.recorded (draft : Draft) (i : Nat) :
    Except Fault Manifest.File → Except IoFault Entry → Prop :=
  Settled (fun f entry => f.database = draft.databaseAt i ∧ f.filename = draft.dumpAt i ∧
    f.Records entry) fun _ _ => True

/-- The directory of a draft is new, and its databases can have dumps of their own. -/
structure Draft.Ready (draft : Draft) (settings : Settings) (t : Tree) (place : Place) : Prop where
  fresh : t.Fresh (settings.directory draft.id) place
  named : IsNamed draft.id draft.timestamp
  nodup : draft.databases.Nodup
  noSlash : ∀ database ∈ draft.databases, '/' ∉ database.toList

theorem Draft.getElem?_databases {i : Nat} (h : i < draft.databases.length) :
    draft.databases[i]? = some (draft.databaseAt i) := by
  rw [databaseAt, List.getD_eq_getElem?_getD, List.getElem?_eq_getElem h, Option.getD_some]

theorem length_exportJobs (settings : Settings) (request : Request) (draft : Draft) :
    (exportJobs settings request draft).length = draft.databases.length := by
  simp [exportJobs]

theorem getElem?_exportJobs {i : Nat} (h : i < draft.databases.length) :
    (exportJobs settings request draft)[i]? = some ((exportOne (exportOptions settings request
      draft.compression (settings.directory draft.id) (draft.databaseAt i)) (i + 1)
        draft.databases.length).mapFault (.backupOf (draft.databaseAt i))) := by
  rw [exportJobs, List.getElem?_mapIdx, Draft.getElem?_databases h, Option.map_some]

namespace Draft.Ready

variable (hready : draft.Ready settings t place)
include hready

theorem isName {i : Nat} (h : i < draft.databases.length) : IsName (draft.dumpAt i) :=
  isName_dumpName (hready.noSlash _ (List.mem_of_getElem? (Draft.getElem?_databases h))) _

theorem dumpAt_ne {i j : Nat} (hi : i < draft.databases.length) (hj : j < draft.databases.length)
    (hne : i ≠ j) : draft.dumpAt i ≠ draft.dumpAt j := by
  intro heq
  have hsame := dumpName_injective draft.compression heq
  refine hne ((List.getElem?_inj hi hready.nodup).mp ?_)
  rw [Draft.getElem?_databases hi, Draft.getElem?_databases hj, hsame]

theorem apart (files : σ → Tree) :
    (dumpShares files t place (settings.directory draft.id) draft).Apart
      draft.databases.length := by
  intro i j s s' hi hj hne hkept hkept' hallowed
  refine (hready.fresh.has hkept).open?_congr (hready.fresh.has hkept') (hready.isName hj) ?_
  exact Manifest.at?_sibling hallowed (hready.dumpAt_ne hj hi hne.symm)

theorem respected (hfiles : host.HasFiles files) :
    (dumpShares files t place (settings.directory draft.id) draft).Respected host
      ((exportJobs settings request draft).map ExceptT.run) draft.recorded := by
  intro i job hjob own
  rw [List.getElem?_map, Option.map_eq_some_iff] at hjob
  obtain ⟨work, hwork, rfl⟩ := hjob
  have hi : i < draft.databases.length :=
    length_exportJobs settings request draft ▸ (List.getElem?_eq_some_iff.mp hwork).1
  rw [getElem?_exportJobs hi] at hwork
  obtain rfl := Option.some.inj hwork
  exact Work.works_mapFault (works_exportOne hfiles hready.fresh (hready.isName hi) (i + 1) _ rfl
    rfl)

/-- In whatever order the exports take turns, what they come to is as recorded. -/
theorem outcomes (hfiles : host.HasFiles files) {width : Nat} {s' : σ}
    {outcomes : List (Pool.Outcome Fault Manifest.File)} (hin : t.Inside place (files s))
    (h : Pool.Runs host width ((exportJobs settings request draft).map ExceptT.run) s outcomes s') :
    Pool.Outcomes ((exportJobs settings request draft).map ExceptT.run)
      (dumpShares files t place (settings.directory draft.id) draft) draft.recorded outcomes s' := by
  have hapart := hready.apart files
  rw [← length_exportJobs settings request, ← List.length_map (f := ExceptT.run)] at hapart
  exact h.outcomes (hready.respected hfiles) hapart hin

end Draft.Ready

/-! ### The end of a backup -/

/-- The dumps and the manifest of a backup are in its directory, and they are what it says. -/
structure Complete (host : Host σ) (files : σ → Tree) (settings : Settings) (m : Manifest) (s : σ) :
    Prop where
  databases : m.files.map (·.database) = m.databases
  records : ∀ f ∈ m.files,
    f.Records ((files s).open? (join (settings.directory m.id) f.filename))
  totalSize : m.totalSize = (m.files.map (·.size)).sum
  stored : (files s).open? (Manifest.pathIn (settings.directory m.id)) =
    .ok (.file (Text.Utf8.encode m.text))
  readsBack : m.Sound → ∀ bytes,
    (host.answer (.file (.read (Manifest.pathIn (settings.directory m.id)))) s).1.reply =
      .ok (.ok ⟨bytes, none⟩) →
    ((Manifest.read (settings.directory m.id)).run.run host s).1.result = .ok (.ok m)

/-- No dump has the name of a manifest. -/
theorem dumpName_ne (database : String) (c : Compression) :
    dumpName database c ≠ Manifest.filename ∧ dumpName database c ≠ Manifest.draftFilename := by
  have hlast : (dumpName database c).toList.getLast? ∈ [some 'l', some 'z', some 't'] := by
    rw [toList_dumpName]
    cases c <;> simp [Compression.suffix]
  constructor
  · intro h
    rw [h] at hlast
    revert hlast
    decide
  · intro h
    rw [h] at hlast
    revert hlast
    decide

section End

variable (hfiles : host.HasFiles files) (hready : draft.Ready settings t place)
include hfiles hready

/-- If the work of filling the directory fails, the directory is gone. -/
theorem works_orRemove {α : Type} {work : Work α} {wanted : α → σ → Prop}
    (h : work.Works host .whole s wanted fun _ s' => t.Inside place (files s')) :
    (orRemove (settings.directory draft.id) work).Works host .whole s wanted fun _ s' =>
      Alike t (files s') := by
  have hinner : work.outcome.Works host .whole s
      (Settled wanted fun _ s' => t.Inside place (files s')) fun _ s' => Alike t (files s') :=
    Work.works_outcome h
  rw [orRemove]
  refine hinner.bind fun result s₁ hresult => ?_
  cases result with
  | ok a => exact Work.works_pure hresult
  | error fault =>
    refine Work.Works.bind (m := fun _ s₂ => Alike t (files s₂)) ?_ fun _ s₂ halike =>
      Work.works_fail halike
    refine Work.works_ofJob (Request.works_whole fun answer hanswer => ?_)
    have hcall := hfiles.call (.removeTree (settings.directory draft.id)) s₁
    rw [hanswer] at hcall
    show Alike t (files _)
    rw [(hcall.removeTree (hready.fresh.has hresult)).2]
    exact hready.fresh.alike_prune hresult

omit hfiles in
/-- What the exports have recorded is still true where nothing but the manifest has come. -/
theorem Draft.Ready.records {outcomes : List (Pool.Outcome Fault Manifest.File)}
    {fs : List Manifest.File} {bytes : List UInt8} {s' : σ}
    (houtcomes : Pool.Outcomes ((exportJobs settings request draft).map ExceptT.run)
      (dumpShares files t place (settings.directory draft.id) draft) draft.recorded outcomes s)
    (hvalues : outcomes = fs.map .value) (hin : t.Inside place (files s'))
    (hstored : Manifest.Stored (settings.directory draft.id) place bytes (files s) (files s')) :
    fs.map (·.database) = draft.databases ∧ ∀ f ∈ fs,
      f.Records ((files s').open? (join (settings.directory draft.id) f.filename)) := by
  have hlength : fs.length = draft.databases.length := by
    have hlength := houtcomes.length_eq
    rwa [hvalues, List.length_map, List.length_map, length_exportJobs] at hlength
  have hrecorded {i : Nat} {f : Manifest.File} (hf : fs[i]? = some f) :
      i < draft.databases.length ∧ draft.recorded i (.ok f)
        ((files s).open? (join (settings.directory draft.id) (draft.dumpAt i))) :=
    ⟨hlength ▸ (List.getElem?_eq_some_iff.mp hf).1,
      houtcomes.value i f (by rw [hvalues, List.getElem?_map, hf, Option.map_some])⟩
  constructor
  · refine List.ext_getElem? fun i => ?_
    rw [List.getElem?_map]
    cases hf : fs[i]? with
    | none =>
      rw [List.getElem?_eq_none_iff, hlength, ← List.getElem?_eq_none_iff] at hf
      rw [hf, Option.map_none]
    | some f =>
      obtain ⟨hi, hdatabase, -⟩ := hrecorded hf
      rw [Draft.getElem?_databases hi, Option.map_some, hdatabase]
  · intro f hf
    obtain ⟨i, hi⟩ := List.mem_iff_getElem?.mp hf
    obtain ⟨hlt, -, hname, hrecords⟩ := hrecorded hi
    obtain ⟨hfinal, hdraft⟩ := dumpName_ne (draft.databaseAt i) draft.compression
    rw [hname, (hready.fresh.has houtcomes.kept).open?_congr (hready.fresh.has hin)
      (hready.isName hlt) (hstored.others _ hfinal hdraft)]
    exact hrecords

theorem works_conclude (request : Request) {outcomes : List (Pool.Outcome Fault Manifest.File)}
    (houtcomes : Pool.Outcomes ((exportJobs settings request draft).map ExceptT.run)
      (dumpShares files t place (settings.directory draft.id) draft) draft.recorded outcomes s) :
    (conclude settings request draft outcomes).Works host .whole s
      (fun m s' => m.databases = draft.databases ∧ Complete host files settings m s')
      (fun _ s' => Alike t (files s')) := by
  have hlength : outcomes.length = draft.databases.length := by
    rw [houtcomes.length_eq, List.length_map, length_exportJobs]
  rw [conclude]
  refine works_orRemove hfiles hready ?_
  refine Work.Works.bind (m := fun fs s' => outcomes = fs.map .value ∧ s' = s) ?_ ?_
  · refine Work.works_ofResult ?_
    cases hgather : Pool.gather Fault.backupOf draft.databases outcomes with
    | error fault => exact houtcomes.kept
    | ok fs => exact ⟨Pool.gather_eq_ok hgather hlength houtcomes.blamed, rfl⟩
  · rintro fs s₁ ⟨hvalues, rfl⟩
    refine (Manifest.works_write hfiles hready.fresh (draft.manifest request fs)
      houtcomes.kept).bind fun _ s₂ ⟨hin, hstored⟩ => ?_
    obtain ⟨hdatabases, hrecords⟩ := hready.records houtcomes hvalues hin hstored
    refine Work.works_pure ⟨rfl, hdatabases, hrecords, rfl, hstored.there, ?_⟩
    intro hsound bytes hbytes
    obtain ⟨result, hresult, m, rfl, rfl, -⟩ :=
      (Manifest.succeeds_read hfiles hsound hstored.there hbytes).run
    exact hresult

end End

/-- A plan is one for the draft that has been prepared. -/
theorem works_plan (hfiles : host.HasFiles files) {listed : List String}
    (hlisted : request.databases = [] → Lists host settings s listed) :
    (plan settings request).Works host .whole s
      (fun p s' => ∃ draft : Draft, p.jobs = exportJobs settings request draft ∧
        p.conclude = conclude settings request draft ∧
        draft.databases = meant request.databases listed ∧
        IsNamed draft.id draft.timestamp ∧
        HasPlace settings (files s) draft.id (files s'))
      (fun _ s' => Paved settings.root (files s) (files s')) := by
  rw [plan]
  exact (works_prepare hfiles hlisted).bind fun draft s' hdraft =>
    Work.works_pure ⟨draft, rfl, rfl, hdraft⟩

/-- Whatever the server does, in whatever order the exports take turns and whichever calls on files
fail, a backup is complete and is one of the databases that were meant, or what was there before is
spared. -/
theorem settled_of_carriesOut (hfiles : host.HasFiles files) {listed : List String}
    (hlisted : request.databases = [] → Lists host settings s listed) (hnodup : listed.Nodup)
    (hnames : ∀ database ∈ meant request.databases listed, '/' ∉ database.toList)
    {result : Except Fault Manifest} {s' : σ}
    (h : Plan.CarriesOut host (plan settings request) s (.ok result) s') :
    Settled (fun m s' => m.databases = meant request.databases listed ∧
        Complete host files settings m s')
      (fun _ s' => Spared settings.root (files s) (files s')) result s' := by
  generalize hresult : (Except.ok result : Except String (Except Fault Manifest)) = ended at h
  have hplan := works_plan hfiles hlisted
  cases h with
  | broken => cases hresult
  | failed hfailed =>
    cases hresult
    have hpaved := Job.Works.run hplan hfailed
    exact Paved.spared hpaved fun _ => rfl
  | done hdone hruns =>
    obtain ⟨draft, hjobs, hconclude, hdatabases, hdirectory, v, place, hpaved, hfresh, hput⟩ :=
      Job.Works.run hplan hdone
    have hready : draft.Ready settings v place :=
      ⟨hfresh, hdirectory, hdatabases ▸ nodup_meant hnodup, hdatabases ▸ hnames⟩
    rw [hjobs] at hruns
    have hapart := hready.apart files
    rw [← length_exportJobs settings request,
      ← List.length_map (f := ExceptT.run)] at hapart
    have houtcomes := hruns.outcomes (hready.respected hfiles) hapart
      (hput ▸ hfresh.inside_put : v.Inside place (files _))
    have hend := (works_conclude hfiles hready request houtcomes).run
      (a := result) (by rw [hresult, hconclude])
    rw [hconclude]
    cases result with
    | ok m => exact ⟨hend.1.trans hdatabases, hend.2⟩
    | error fault => exact hpaved.spared hend

/-- A world whose server lists these databases and turns down all sessions after the first ones. -/
def crowded (names : List String) (sessions : Nat) (files : Tree) : World where
  server :=
    { entries := [⟨Sql.listDatabases, none, ⟨["Database"], names.map fun name => [.text name]⟩⟩]
      rules := [⟨some "acquire", "", sessions, none, .refuse (.rejected "too many")⟩]
      product := "mysql"
      version := "8.0.36" }
  files
  programs := default
  now := ⟨1709294400, 0⟩

def oneByOne : Settings := { root := "b", compression := .none, parallelism := 1 }

/-- Whether what has been done came to a value. Of a breakdown there is nothing to tell. -/
def ends {α : Type} (result : Except String (Except Fault α)) : Option Bool :=
  result.toOption.map Except.isOk

theorem exists_value {α : Type} {result : Except String (Except Fault α)}
    (h : ends result = some true) : ∃ a, result = .ok (.ok a) := by
  rcases result with text | fault | a
  · cases h
  · cases h
  · exact ⟨a, rfl⟩

theorem exists_fault {α : Type} {result : Except String (Except Fault α)}
    (h : ends result = some false) : ∃ fault, result = .ok (.error fault) := by
  rcases result with text | fault | a
  · cases h
  · exact ⟨fault, rfl⟩
  · cases h

theorem settled_of_crowded : ∃ m s',
    Plan.CarriesOut Scripted.host (plan oneByOne {}) (crowded ["shop", "mysql", "crm"] 3 ⟨[]⟩)
      (.ok (.ok m)) s' ∧
    m.databases = ["shop", "crm"] ∧ Complete Scripted.host World.files oneByOne m s' := by
  generalize hw : crowded ["shop", "mysql", "crm"] 3 ⟨[]⟩ = w
  have hlists : Lists Scripted.host oneByOne w ["shop", "mysql", "crm"] := by
    subst hw
    intro session result hsession hresult
    have hconnect : (oneByOne.connect.run.run Scripted.host
        (crowded ["shop", "mysql", "crm"] 3 ⟨[]⟩)).1.result =
          .ok (.ok ⟨0, "mysql", "8.0.36"⟩) := rfl
    cases hconnect.symm.trans hsession
    cases hresult
    rfl
  have hends : ends (create Scripted.host oneByOne {} w).1 = some true := by
    subst hw
    decide +kernel
  obtain ⟨m, hm⟩ := exists_value hends
  have hcarries := Plan.carriesOut_carryOut Scripted.host (plan oneByOne {}) w
  rw [← create, hm] at hcarries
  exact ⟨m, _, hcarries, settled_of_carriesOut Scripted.hasFiles_host (fun _ => hlists)
    (by decide) (by decide) hcarries⟩

/-- Where the root is not there it is made, and it stays if the backup fails. And a name that the
server lists can lead out of the directory of a backup, so that what it meets is overwritten. -/
theorem strays_of_crowded :
    (∃ fault w, create Scripted.host oneByOne { databases := ["shop"] } (crowded [] 1 ⟨[]⟩) =
        (.ok (.error fault), w) ∧
      (crowded [] 1 ⟨[]⟩).files.open? "b" = .error (.os .notFound) ∧
      w.files.open? "b" = .ok .directory) ∧
    ∃ fault w, create Scripted.host oneByOne {} (crowded ["../x", "y"] 2
        ⟨[(["b"], .directory), (["b", "x.sql"], .file [107])]⟩) = (.ok (.error fault), w) ∧
      w.files.open? "b/x.sql" ≠ (crowded ["../x", "y"] 2
        ⟨[(["b"], .directory), (["b", "x.sql"], .file [107])]⟩).files.open? "b/x.sql" := by
  constructor
  · have hends : ends (create Scripted.host oneByOne { databases := ["shop"] }
        (crowded [] 1 ⟨[]⟩)).1 = some false ∧
      (create Scripted.host oneByOne { databases := ["shop"] } (crowded [] 1 ⟨[]⟩)).2.files.open?
        "b" = .ok .directory := by decide +kernel
    obtain ⟨fault, hfault⟩ := exists_fault hends.1
    exact ⟨fault, _, Prod.ext hfault rfl, rfl, hends.2⟩
  · generalize hw : crowded ["../x", "y"] 2
      ⟨[(["b"], .directory), (["b", "x.sql"], .file [107])]⟩ = w
    have hends : ends (create Scripted.host oneByOne {} w).1 = some false ∧
        (create Scripted.host oneByOne {} w).2.files.open? "b/x.sql" ≠
          w.files.open? "b/x.sql" := by
      subst hw
      decide +kernel
    obtain ⟨fault, hfault⟩ := exists_fault hends.1
    exact ⟨fault, _, Prod.ext hfault rfl, hends.2⟩

end SqlBackup.Backup
