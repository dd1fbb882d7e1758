import Mathlib
import SqlBackup.Proofs.Backup.Targets
import SqlBackup.Proofs.Files.Root

/-!
# What a restore reads

Of files, a restore looks at the manifest of the backup asked for and at the dumps that are found
there. Where a dump is found is told by the manifest alone, by the name that it gives to the backup
and those that it gives to the dumps. If the former is the name asked for and the latter lead on
from a directory, all is in the directory of the backup.
-/
namespace SqlBackup

open Files.Path (IsBelow LeadsOn Inside join components)
open Scripted (Tree Place World)

variable {σ : Type} {host : Host σ} {s s' : σ}

namespace Backup

variable {settings : Settings} {request : RestoreRequest} {m : Manifest} {id : String}

/-- The path of a dump, as its manifest has it. -/
def dumpPath (settings : Settings) (m : Manifest) (file : Manifest.File) : String :=
  join (settings.directory m.id) file.filename

/-- The manifest that is found under this name. -/
def Finds (host : Host σ) (settings : Settings) (id : String) (s : σ) (m : Manifest) : Prop :=
  ((get settings id).run.run host s).1.result = .ok (.ok m)

/-- What a restore may ask, if this is the manifest that is found. -/
inductive Reads (settings : Settings) (id : String) (found : Manifest → Prop) :
    SqlBackup.Request → Prop
  | silent {asked : SqlBackup.Request} (hfile : ∀ call, asked ≠ .file call)
      (hprogram : ∀ call, asked ≠ .program call) : Reads settings id found asked
  | codec {call : Programs.Call} (h : Codec.Runs call) : Reads settings id found (.program call)
  | manifest {call : Files.Call} (hid : isName id = true)
      (h : call.Views (Manifest.pathIn (settings.directory id))) :
      Reads settings id found (.file call)
  | dump {call : Files.Call} {m : Manifest} {file : Manifest.File} (hm : found m)
      (hfile : file ∈ m.files) (h : call.Views (dumpPath settings m file)) :
      Reads settings id found (.file call)

/-- The restore of one database looks at its dump. No program is given the path of that, as the
compression of a backup is known. -/
theorem reads_of_restores {found : Manifest → Prop} (hm : found m) {file : Manifest.File}
    (hfile : file ∈ m.files) {asked : SqlBackup.Request}
    (h : Restores (loadOptions settings request m file) asked) : Reads settings id found asked := by
  cases h with
  | acquire | tell | drop => exact .silent (by simp) (by simp)
  | loads h =>
    cases h with
    | views h => exact .dump hm hfile h
    | codec h => exact .codec h
    | archive hnone => cases hnone
    | transacts h =>
      refine .silent ?_ ?_
      all_goals
        rintro call rfl
        cases h
    | _ => exact .silent (by simp) (by simp)

/-! ### The parts of a restore -/

theorem reads_get (settings : Settings) (id : String) (found : Manifest → Prop) :
    (get settings id).Asks (Reads settings id found) fun _ => isName id = true :=
  asks_get settings id fun hid _ => .manifest hid

/-- A manifest is found only under what can name a backup. -/
theorem Finds.isName (h : Finds host settings id s m) : isName id = true :=
  Job.Asks.run (reads_get settings id fun _ => True) h m rfl

theorem asks_verify {allowed : SqlBackup.Request → Prop} (directory : String) (file : Manifest.File)
    (h : ∀ call : Files.Call, call.Views (join directory file.filename) → allowed (.file call)) :
    (verify directory file).Asks allowed fun _ => True := by
  rw [verify]
  refine (Work.asks_request (h _ .kind)).bind fun kind _ => ?_
  split
  · split
    · exact Work.asks_pure trivial
    · refine (Dump.asks_digest (h _ .read)).bind fun actual _ => ?_
      split
      · exact Work.asks_pure trivial
      · exact Work.asks_fail
  · exact Work.asks_fail

theorem asks_verifyAll {allowed : SqlBackup.Request → Prop} (directory : String)
    (files : List Manifest.File) (h : ∀ file ∈ files, ∀ call : Files.Call,
      call.Views (join directory file.filename) → allowed (.file call)) :
    (verifyAll directory files).Asks allowed fun _ => True := by
  induction files with
  | nil => exact Work.asks_pure trivial
  | cons file files ih =>
    obtain ⟨hfile, hfiles⟩ := List.forall_mem_cons.mp h
    exact (Work.asks_mapFault (asks_verify directory file hfile)).bind fun _ _ => ih hfiles

theorem asks_restoreFrom {allowed : SqlBackup.Request → Prop} (settings : Settings)
    (request : RestoreRequest) (m : Manifest) (h : ∀ file ∈ m.files, ∀ call : Files.Call,
      call.Views (dumpPath settings m file) → allowed (.file call)) :
    (restoreFrom settings request m).Asks allowed fun _ => True := by
  rw [restoreFrom]
  refine Work.asks_ofResult_bind fun files hfiles => ?_
  have hverify : (verifyAll (settings.directory m.id) files).Asks allowed fun _ => True :=
    asks_verifyAll _ files fun file hfile => h file (mem_of_chooseFiles hfiles hfile)
  dsimp only
  split
  · exact hverify.bind fun _ _ => Work.asks_pure trivial
  · exact Work.asks_pure trivial

theorem reads_restoreJobs {found : Manifest → Prop} (hm : found m) {files : List Manifest.File}
    (hfiles : chooseFiles m request.databases = .ok files) :
    ∀ job ∈ (restoreJobs settings request ⟨m, files⟩).map ExceptT.run,
      job.Asks (Reads settings request.id found) fun _ => True := by
  intro job hjob
  obtain ⟨i, hi⟩ := List.getElem?_of_mem hjob
  obtain ⟨file, hfile, hasks⟩ := restores_of_restoreJobs hi
  have hmem := mem_of_chooseFiles hfiles (List.mem_of_getElem? hfile)
  exact hasks.widen fun _ => reads_of_restores hm hmem

/-! ### The whole restore -/

/-- What has been asked so far and the calls that are waited for are what a restore may ask. -/
structure AllRead (settings : Settings) (id : String) (found : Manifest → Prop) (talk : List Asked)
    (calls : List Files.Call) : Prop where
  asked : ∀ asked ∈ talk, Reads settings id found asked.request
  waiting : ∀ call ∈ calls, Reads settings id found (.file call)

section AllRead

variable {found : Manifest → Prop} {first second talk : List Asked} {calls later : List Files.Call}

theorem AllRead.append (hfirst : AllRead settings id found first calls)
    (hsecond : AllRead settings id found second later) :
    AllRead settings id found (first ++ second) later :=
  ⟨List.forall_mem_append.mpr ⟨hfirst.asked, hsecond.asked⟩, hsecond.waiting⟩

theorem allRead_of_asks {α : Type} {job rest : Job α} {wanted : α → Prop}
    (h : job.Asks (Reads settings id found) wanted)
    (hadvances : job.Advances host s talk rest s') :
    AllRead settings id found talk rest.call?.toList := by
  obtain ⟨hread, hrest⟩ := h.leads hadvances.leads
  exact ⟨hread, fun call hcall => hrest.of_call? (Option.mem_toList.mp hcall)⟩

end AllRead

/-- As long as a restore is planned, the dumps are those of the manifest that is found. -/
theorem allRead_of_planning {talk : List Asked}
    {rest : Job (Except Fault (Plan Restored (List Restored)))}
    (h : (restorePlan settings request).run.Advances host s talk rest s') :
    AllRead settings request.id (Finds host settings request.id s) talk rest.call?.toList := by
  rw [restorePlan_eq, Work.run_bind_eq] at h
  have hget := reads_get settings request.id (Finds host settings request.id s)
  rcases h.bind_cases with ⟨rest', hadvances, rfl, hopen⟩ |
    ⟨first, second, result, t, rfl, hfirst, hsecond⟩
  · rw [Job.call?_bind hopen]
    exact allRead_of_asks hget hadvances
  refine (allRead_of_asks hget hfirst).append ?_
  cases result with
  | error fault =>
    have hnone : (Work.fail fault : Work (Plan Restored (List Restored))).Asks
        (Reads settings request.id (Finds host settings request.id s)) fun _ => True :=
      Work.asks_fail
    exact allRead_of_asks hnone hsecond
  | ok m =>
    have hm : Finds host settings request.id s m := hfirst.run.1
    exact allRead_of_asks (asks_restoreFrom settings request m fun file hfile _ => .dump hm hfile)
      hsecond

/-- What is planned is about the manifest that is found. -/
theorem exists_found {talk : List Asked} {p : Plan Restored (List Restored)}
    (h : (restorePlan settings request).run.Advances host s talk (.done (.ok p)) s') :
    ∃ m files, Finds host settings request.id s m ∧ chooseFiles m request.databases = .ok files ∧
      p = planOf settings request ⟨m, files⟩ := by
  obtain ⟨said, hsaid⟩ := Job.exists_dialogue h.run.1
  have hparts := hsaid
  rw [restorePlan_eq] at hparts
  obtain ⟨_, m, _, _, -, hget, -⟩ := Work.dialogue_bind_ok hparts
  obtain ⟨files, hfiles, hp⟩ := planned_of_dialogue hget.run.1 hsaid
  exact ⟨m, files, hget.run.1, hfiles, hp⟩

/-- While the databases are loaded, the dumps are those of the manifest that is found. -/
theorem allRead_of_running {talk : List Asked} {p : Plan Restored (List Restored)} {s₁ : σ}
    {moves : List (Pool.Move Fault Restored)} {t : Pool.Turns σ Fault Restored}
    (hplan : (restorePlan settings request).run.Advances host s talk (.done (.ok p)) s₁)
    (hturns : Pool.History host (.start p.width (p.jobs.map ExceptT.run) s₁) moves t) :
    AllRead settings request.id (Finds host settings request.id s)
      (talk ++ moves.filterMap Pool.Move.exchange?) (t.tasks.filterMap Pool.Task.call?) := by
  obtain ⟨m, files, hm, hfiles, rfl⟩ := exists_found hplan
  obtain ⟨hasked, hasks⟩ := hturns.asks (reads_restoreJobs hm hfiles)
    (fun talk _ => ∀ asked ∈ talk,
      Reads settings request.id (Finds host settings request.id s) asked.request)
    (fun talk asked _ hallowed hs' =>
      List.forall_mem_append.mpr ⟨hs', List.forall_mem_singleton.mpr hallowed⟩)
    (allRead_of_planning hplan).asked
  exact ⟨hasked, fun call hcall => hasks.of_call? hcall⟩

theorem allRead_of_reaches {talk : List Asked} {calls : List Files.Call}
    {restored : Option (List Restored)}
    (h : Plan.Reaches host (restorePlan settings request) s talk calls restored s') :
    AllRead settings request.id (Finds host settings request.id s) talk calls := by
  cases h with
  | planning hplan => exact allRead_of_planning hplan
  | running hplan hturns => exact allRead_of_running hplan hturns
  | concluding hplan hturns hover hconclude =>
    obtain ⟨m, files, -, -, rfl⟩ := exists_found hplan
    exact (allRead_of_running hplan hturns).append
      (allRead_of_asks (Work.asks_ofResult _) hconclude)

/-! ### Where the dumps are -/

/-- A call that looks at something below a directory, in whatever tree of files. -/
def LooksInto (directory : String) (call : Files.Call) : Prop :=
  ∃ path, call.Views path ∧ Inside directory path ∧
    ∀ (t : Tree) (place p : Place), t.resolve directory = .ok place → t.resolve path = .ok p →
      ∃ below, LeadsOn below ∧ p = place ++ below

/-- A manifest that has the name that it is found under, and dumps that are below its directory. -/
structure Homed (id : String) (m : Manifest) : Prop where
  id : m.id = id
  below : ∀ file ∈ m.files, IsBelow file.filename

variable {call : Files.Call} {directory path : String} {file : Manifest.File}
  {files : List Manifest.File}

theorem looksInto_iff (h : call.Views path) : LooksInto directory call ↔ Inside directory path := by
  refine ⟨?_, fun hinside => ⟨path, h, hinside, fun _ _ _ => Tree.exists_below hinside⟩⟩
  rintro ⟨other, hother, hinside, -⟩
  cases h <;> cases hother <;> exact hinside

/-- What a restore reads is in the directory of the backup if the manifest is at home there. -/
theorem Reads.looksInto {found : Manifest → Prop} (hfound : ∀ m, found m → Homed id m)
    (h : Reads settings id found (.file call)) : LooksInto (settings.directory id) call := by
  cases h with
  | silent hfile => exact absurd rfl (hfile call)
  | manifest hid h =>
    exact (looksInto_iff h).mpr
      (Files.Path.inside_join _ (Files.Path.isBelow_of_isName Manifest.isName_filename))
  | dump hm hfile h =>
    obtain ⟨rfl, hbelow⟩ := hfound _ hm
    exact (looksInto_iff h).mpr (Files.Path.inside_join _ (hbelow _ hfile))

theorem components_directory (settings : Settings) (h : isName id = true) :
    components (settings.directory id) = components settings.root ++ [id] := by
  have hname := isFileName_of_isName h
  rw [Settings.directory, Files.Path.components_join _
    (Files.Path.isAbsolute_of_not_mem hname.noSlash), Files.Path.components_of_isName hname]

/-- A dump that is below the directory that its manifest names is in the directory of a backup only
if that is the same. -/
theorem inside_dumpPath (hid : isName id = true) (hm : isName m.id = true)
    (hbelow : IsBelow file.filename) :
    Inside (settings.directory id) (dumpPath settings m file) ↔ m.id = id := by
  constructor
  · intro h
    obtain ⟨-, below, -, hsame⟩ := Files.Path.inside_iff.mp h
    rw [dumpPath, Files.Path.components_join _ hbelow.1, components_directory settings hm,
      components_directory settings hid, List.append_assoc, List.append_assoc,
      List.append_right_inj, List.singleton_append, List.singleton_append] at hsame
    exact (List.cons.inj hsame).1
  · rintro rfl
    exact Files.Path.inside_join _ hbelow

/-- Where dumps are checked, the first of them is looked at as its manifest has it. -/
theorem reaches_first (hm : Finds host settings request.id s m)
    (hfiles : chooseFiles m request.databases = .ok (file :: files))
    (hverifies : request.verifies = true) :
    ∃ talk s', Plan.Reaches host (restorePlan settings request) s talk
      [.kind (dumpPath settings m file)] none s' := by
  obtain ⟨talk, htalk⟩ := Job.exists_advances hm
  have hplanning := htalk.bind (f := Work.after (restoreFrom settings request))
  rw [← Work.run_bind_eq, ← restorePlan_eq] at hplanning
  have hwaits : (restoreFrom settings request m).run.call?.toList =
      [.kind (dumpPath settings m file)] := by
    rw [restoreFrom, hfiles, hverifies]
    rfl
  refine ⟨talk, ((get settings request.id).run.run host s).2, ?_⟩
  rw [← hwaits]
  exact .planning hplanning

/-- Of files, a restore looks at the manifest of the backup asked for and at the dumps that are found
there, and no program is given a path. All that is in the directory of the backup if the manifest
is at home there. If the manifest has the name of another backup, the dumps of that are checked. -/
theorem inside_of_reaches (host : Host σ) (settings : Settings) (request : RestoreRequest)
    (s : σ) :
    (∀ talk calls restored s',
      Plan.Reaches host (restorePlan settings request) s talk calls restored s' →
        AllRead settings request.id (Finds host settings request.id s) talk calls ∧
        ((∀ m, Finds host settings request.id s m → Homed request.id m) →
          (∀ asked ∈ talk, ∀ call, asked.request = .file call →
            LooksInto (settings.directory request.id) call) ∧
          ∀ call ∈ calls, LooksInto (settings.directory request.id) call)) ∧
    ∀ m file files, Finds host settings request.id s m → isName m.id = true →
      chooseFiles m request.databases = .ok (file :: files) → request.verifies = true →
      IsBelow file.filename →
        (∃ talk s', Plan.Reaches host (restorePlan settings request) s talk
          [.kind (dumpPath settings m file)] none s') ∧
        (LooksInto (settings.directory request.id) (.kind (dumpPath settings m file)) ↔
          m.id = request.id) := by
  refine ⟨fun talk calls restored s' hreaches => ?_,
    fun m file files hm hname hfiles hverifies hbelow => ?_⟩
  · have hread := allRead_of_reaches hreaches
    refine ⟨hread, fun hhomed => ⟨fun asked hasked call hcall => ?_, fun call hcall => ?_⟩⟩
    · exact (hcall ▸ hread.asked asked hasked).looksInto hhomed
    · exact (hread.waiting call hcall).looksInto hhomed
  · exact ⟨reaches_first hm hfiles hverifies,
      (looksInto_iff .kind).trans (inside_dumpPath hm.isName hname hbelow)⟩

/-- What a backup of one plain dump says of itself under this name. -/
def shopAs (id filename : String) : Manifest where
  id
  timestamp := ⟨1709294400, 0⟩
  databases := ["shop"]
  files := [⟨"shop", filename, 10, 0, 0, none⟩]
  totalSize := 10
  compression := .none
  serverVersion := "8.0.36"
  serverType := "mysql"
  profile := none
  description := none

/-- Two directories with a dump each, and in the first of them this manifest. -/
def sideBySide (m : Manifest) : World :=
  waiting ⟨1709294400, 0⟩ ⟨[
    (["b"], .directory),
    (["b", "20240301-120000"], .directory),
    (["b", "20240301-120000", "metadata.json"], .file (Text.Utf8.encode m.text)),
    (["b", "20240301-120000", "shop.sql"], .file (Text.Utf8.encode "SELECT 1;\nSELECT 2;\n")),
    (["b", "other"], .directory),
    (["b", "other", "shop.sql"], .file (Text.Utf8.encode "SELECT 3;\n"))]⟩

def restoreShop : RestoreRequest := { id := "20240301-120000" }

theorem get_sideBySide (hsound : m.Sound) :
    Finds Scripted.host oneByOne restoreShop.id (sideBySide m) m ∧
      restore Scripted.host oneByOne restoreShop (sideBySide m) =
        Plan.carryOut Scripted.host (restoreFrom oneByOne restoreShop m) (sideBySide m) := by
  obtain ⟨hget, hsame⟩ : ((get oneByOne restoreShop.id).run.run Scripted.host
      (sideBySide m)).1.result = .ok (.ok m) ∧ _ = sideBySide m :=
    run_get_of_stored (by decide) hsound rfl
  rw [restore, restorePlan_eq, Plan.carryOut_bind hget, hsame]
  exact ⟨hget, rfl⟩

/-- How many statements were executed for each of the databases restored. -/
def executed (result : Except String (Except Fault (List Restored))) : Option (List Nat) :=
  (made? result).map (·.map (·.stats.executed))

/-- The dump that is loaded is that beside the manifest. -/
theorem inside_of_homed : ∃ talk restored w,
    Plan.Reaches Scripted.host (restorePlan oneByOne restoreShop)
      (sideBySide (shopAs "20240301-120000" "shop.sql")) talk [] (some restored) w ∧
    restored.map (·.stats.executed) = [2] ∧
    (∀ asked ∈ talk, ∀ call, asked.request = .file call →
      LooksInto (oneByOne.directory restoreShop.id) call) ∧
    LooksInto (oneByOne.directory restoreShop.id) (.kind "b/20240301-120000/shop.sql") := by
  generalize hm : shopAs "20240301-120000" "shop.sql" = m
  have hsound : m.Sound := hm ▸ (by decide)
  have hends : executed (Plan.carryOut Scripted.host (restoreFrom oneByOne restoreShop m)
      (sideBySide m)).1 = some [2] := by
    subst hm
    decide +kernel
  have hhomed : Homed restoreShop.id m := by
    subst hm
    exact ⟨rfl, by decide⟩
  obtain ⟨hget, hcarried⟩ := get_sideBySide hsound
  rw [← hcarried] at hends
  obtain ⟨restored, hrestored, hexecuted⟩ := Option.map_eq_some_iff.mp hends
  have hcarries := Plan.carriesOut_carryOut Scripted.host (restorePlan oneByOne restoreShop)
    (sideBySide m)
  rw [← restore, made?_eq_some.mp hrestored] at hcarries
  obtain ⟨talk, hreaches⟩ := hcarries.reaches
  obtain ⟨hmoments, hfirst⟩ :=
    inside_of_reaches Scripted.host oneByOne restoreShop (sideBySide m)
  obtain ⟨-, hinside⟩ := hmoments talk _ _ _ hreaches
  have hfound (m' : Manifest) (h : Finds Scripted.host oneByOne restoreShop.id (sideBySide m) m') :
      Homed restoreShop.id m' := Except.ok.inj (Except.ok.inj (hget.symm.trans h)) ▸ hhomed
  refine ⟨talk, restored, _, hreaches, hexecuted, (hinside hfound).1, ?_⟩
  subst hm
  exact (hfirst _ _ _ hget (by decide) rfl rfl (by decide)).2.mpr rfl

/-- What is restored is the dump of another backup if the manifest has the name of that. It is checked
too if the manifest has a name for the dump that leads there. -/
theorem strays_of_renamed :
    (∃ talk w, Plan.Reaches Scripted.host (restorePlan oneByOne restoreShop)
      (sideBySide (shopAs "other" "shop.sql")) talk [.kind "b/other/shop.sql"] none w) ∧
    ¬ LooksInto (oneByOne.directory restoreShop.id) (.kind "b/other/shop.sql") ∧
    executed (restore Scripted.host oneByOne restoreShop
      (sideBySide (shopAs "other" "shop.sql"))).1 = some [1] ∧
    (∃ talk w, Plan.Reaches Scripted.host (restorePlan oneByOne restoreShop)
      (sideBySide (shopAs "20240301-120000" "../other/shop.sql")) talk
      [.kind "b/20240301-120000/../other/shop.sql"] none w) ∧
    (sideBySide (shopAs "20240301-120000" "../other/shop.sql")).files.resolve
      "b/20240301-120000/../other/shop.sql" = .ok ["b", "other", "shop.sql"] := by
  obtain ⟨hother, hcarried⟩ := get_sideBySide (m := shopAs "other" "shop.sql") (by decide)
  obtain ⟨hback, -⟩ :=
    get_sideBySide (m := shopAs "20240301-120000" "../other/shop.sql") (by decide)
  have hfiles (id filename : String) : chooseFiles (shopAs id filename) restoreShop.databases =
      .ok [⟨"shop", filename, 10, 0, 0, none⟩] := rfl
  refine ⟨reaches_first hother (hfiles _ _) rfl, ?_, ?_, reaches_first hback (hfiles _ _) rfl, ?_⟩
  · rw [looksInto_iff .kind]
    decide
  · rw [hcarried]
    decide +kernel
  · decide +kernel

end Backup

end SqlBackup
