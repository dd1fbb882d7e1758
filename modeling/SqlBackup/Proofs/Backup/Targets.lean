import Mathlib
import SqlBackup.Backup.Restoration
import SqlBackup.Proofs.Backup.Lifecycle
import SqlBackup.Proofs.Load.Requests

/-!
# Where databases are restored to

A restore takes each database of its choice once and gives it the name that the renames have for it.
Nothing keeps these names apart: they are distinct exactly if the renames send no two databases of
the choice to one name. Each of the loads names only its own database to the server.
-/
namespace SqlBackup

/-- What a plan is carried out to that is made behind work that yields a value. -/
theorem Plan.carryOut_bind {σ α β γ : Type} {host : Host σ} {work : Work γ}
    {f : γ → Work (Plan β α)} {s : σ} {c : γ}
    (h : (work.run.run host s).1.result = .ok (.ok c)) :
    carryOut host (work >>= f) s = carryOut host (f c) (work.run.run host s).2 := by
  obtain ⟨talk, htalk⟩ := Job.exists_advances h
  have hrun := (htalk.bind (f := Work.after f)).run
  rw [← Work.run_bind_eq] at hrun
  rw [carryOut, carryOut]
  dsimp only
  rw [hrun.1, hrun.2]
  rfl

namespace Backup

open Load (Addresses Minds)
open Scripted (World)

variable {σ : Type} {host : Host σ} {s s' : σ} {settings : Settings} {m : Manifest}
  {request : RestoreRequest}

/-! ### What a backup is of -/

/-- The databases of a draft are those that are meant. -/
theorem databases_of_prepare {made : Request} {listed : List String} {talk : List Exchange}
    {draft : Draft} (hlisted : made.databases = [] → Lists host settings s listed)
    (h : (prepare settings made).run.Dialogue host s talk (.ok draft) s') :
    draft.databases = meant made.databases listed := by
  rw [prepare] at h
  obtain ⟨_, session, t, _, -, hconnect, h⟩ := Work.dialogue_bind_ok h
  obtain ⟨_, databases, u, _, -, hchoose, h⟩ := Work.dialogue_bind_ok h
  have hmeant : databases = meant made.databases listed := by
    rw [chooseDatabases] at hchoose
    rw [meant]
    split at hchoose
    · next hempty =>
      rw [if_pos hempty]
      obtain ⟨_, result, _, _, -, hquery, -, hdatabases, -⟩ := Work.dialogue_bind_ok hchoose
      cases hdatabases
      obtain ⟨answer, hanswer, hreply, -, -⟩ := Session.dialogue_call.mp hquery
      cases answer with
      | error fault => cases hanswer
      | ok result' =>
        cases hanswer
        rw [← hlisted (List.isEmpty_iff.mp hempty) session result hconnect.run.1
          (hconnect.run.2 ▸ hreply)]
    · next hempty =>
      rw [if_neg hempty]
      obtain ⟨-, hdatabases, -⟩ := hchoose
      exact Except.ok.inj hdatabases
  rw [← hmeant]
  split at h
  · obtain ⟨-, hno, -⟩ := h
    cases hno
  · obtain ⟨_, timestamp, _, _, -, -, h⟩ := Work.dialogue_bind_ok h
    obtain ⟨_, id, _, _, -, -, -, hdraft, -⟩ := Work.dialogue_bind_ok h
    rw [Except.ok.inj hdraft]

/-- A backup is of the databases that were meant, with one dump for each of them. -/
theorem databases_of_carriesOut {made : Request} {listed : List String}
    (hlisted : made.databases = [] → Lists host settings s listed)
    (h : Plan.CarriesOut host (plan settings made) s (.ok (.ok m)) s') :
    m.databases = meant made.databases listed ∧ m.files.map (·.database) = m.databases := by
  obtain ⟨p, outcomes, t, hdone, hruns, hresult⟩ := h.of_value
  obtain ⟨talk, htalk⟩ := Job.exists_dialogue hdone
  rw [plan] at htalk
  obtain ⟨_, draft, _, _, -, hprepare, -, hplan, -⟩ := Work.dialogue_bind_ok htalk
  cases hplan
  have hdatabases := databases_of_prepare hlisted hprepare
  have hconclude := @asks_conclude settings made draft
  obtain ⟨files, hgather, rfl⟩ := Job.Asks.run (hconclude _) hresult m rfl
  refine ⟨hdatabases, ?_⟩
  have hwork (i : Nat) (database : String) := (Work.asks_mapFault (g := .backupOf database)
    (asks_exportOne (exportOptions settings made draft.compression (settings.directory draft.id)
      database) (i + 1) draft.databases.length)).widen fun _ _ => trivial
  exact (hruns.map_values (g := id) hwork rfl hgather).trans (List.map_id _)

/-! ### What is restored -/

/-- The databases of a backup that a request asks for: those that it names, each once, or else
all. -/
def chosen (m : Manifest) (requested : List String) : List String :=
  if requested.isEmpty then m.databases else requested.eraseDups

theorem nodup_chosen {requested : List String} (h : m.databases.Nodup) :
    (chosen m requested).Nodup := by
  rw [chosen]
  split
  · exact h
  · exact nodup_eraseDups

theorem requireFile_eq_ok {database : String} {file : Manifest.File}
    (h : requireFile m database = .ok file) : file ∈ m.files ∧ file.database = database := by
  rw [requireFile] at h
  split at h
  · next found hfound =>
    cases h
    rw [Manifest.file?] at hfound
    have hsame := List.find?_some hfound
    exact ⟨List.mem_of_find?_eq_some hfound, eq_of_beq hsame⟩
  · cases h

/-- Dumps are required one after the other. -/
theorem forall₂_requireFile {databases : List String} {files : List Manifest.File}
    (h : databases.mapM (requireFile m) = .ok files) :
    List.Forall₂ (fun file database => file ∈ m.files ∧ file.database = database) files
      databases := by
  induction databases generalizing files with
  | nil =>
    cases h
    exact .nil
  | cons database databases ih =>
    rw [List.mapM_cons] at h
    cases hfile : requireFile m database with
    | error fault =>
      rw [hfile] at h
      cases h
    | ok file =>
      cases hrest : databases.mapM (requireFile m) with
      | error fault =>
        rw [hfile, hrest] at h
        cases h
      | ok rest =>
        rw [hfile, hrest] at h
        cases h
        exact .cons (requireFile_eq_ok hfile) (ih hrest)

/-- The dumps chosen belong to the backup. -/
theorem mem_of_chooseFiles {requested : List String} {files : List Manifest.File}
    (h : chooseFiles m requested = .ok files) {file : Manifest.File} (hfile : file ∈ files) :
    file ∈ m.files := by
  rw [chooseFiles] at h
  split at h
  · cases h
    exact hfile
  · exact ((List.forall₂_and_left _ _).mp (forall₂_requireFile h)).1 file hfile

theorem map_database_chooseFiles (hwhole : m.files.map (·.database) = m.databases)
    {requested : List String} {files : List Manifest.File}
    (h : chooseFiles m requested = .ok files) : files.map (·.database) = chosen m requested := by
  rw [chooseFiles] at h
  rw [chosen]
  split at h
  · next hempty =>
    rw [if_pos hempty, ← Except.ok.inj h, hwhole]
  · next hempty =>
    have hsame := ((List.forall₂_and_left _ _).mp (forall₂_requireFile h)).2
    rw [← List.forall₂_map_left_iff (R := Eq), List.forall₂_eq_eq_eq] at hsame
    rw [if_neg hempty, hsame]

/-- The plan of a restore of these dumps. -/
def planOf (settings : Settings) (request : RestoreRequest) (selection : Selection) :
    Plan Restored (List Restored) where
  width := settings.width request.parallelism selection.files.length
  jobs := restoreJobs settings request selection
  conclude outcomes := Work.ofResult (Pool.gather .restoreOf
    (selection.files.map fun file => targetOf request file.database) outcomes)

/-- What a restore plans once its backup has been found. -/
def restoreFrom (settings : Settings) (request : RestoreRequest) (m : Manifest) :
    Work (Plan Restored (List Restored)) := do
  let files ← Work.ofResult (chooseFiles m request.databases)
  if request.verifies then verifyAll (settings.directory m.id) files
  pure (planOf settings request ⟨m, files⟩)

theorem restorePlan_eq (settings : Settings) (request : RestoreRequest) :
    restorePlan settings request = get settings request.id >>= restoreFrom settings request := by
  rw [restorePlan, select, bind_assoc]
  congr 1
  funext m
  rw [restoreFrom, bind_assoc]
  congr 1
  funext files
  dsimp only
  split
  · rw [bind_assoc]
    rfl
  · rfl

/-- What is planned is the restore of the dumps chosen from the backup that is found. -/
theorem planned_of_dialogue {talk : List Exchange} {p : Plan Restored (List Restored)}
    (hget : ((get settings request.id).run.run host s).1.result = .ok (.ok m))
    (h : (restorePlan settings request).run.Dialogue host s talk (.ok p) s') :
    ∃ files, chooseFiles m request.databases = .ok files ∧
      p = planOf settings request ⟨m, files⟩ := by
  rw [restorePlan_eq] at h
  obtain ⟨_, m', t, _, -, hfound, h⟩ := Work.dialogue_bind_ok h
  obtain rfl : m = m' := Except.ok.inj (Except.ok.inj (hget.symm.trans hfound.run.1))
  obtain ⟨_, files, u, _, -, ⟨-, hfiles, -⟩, h⟩ := Work.dialogue_bind_ok h
  refine ⟨files, hfiles.symm, ?_⟩
  split at h
  · obtain ⟨_, _, _, _, -, -, -, hplan, -⟩ := Work.dialogue_bind_ok h
    exact Except.ok.inj hplan
  · obtain ⟨-, hplan, -⟩ := h
    exact Except.ok.inj hplan

/-! ### A single load -/

/-- What the restore of one database asks. -/
inductive Restores (options : Load.Options) : SqlBackup.Request → Prop
  | acquire : Restores options .acquire
  | tell (event : Progress.Event) : Restores options (.tell event)
  | drop (s : Session) :
      Restores options (.session s (.execute (Sql.dropDatabase options.database)))
  | loads {s : Session} {request : SqlBackup.Request} (h : Load.Loads s options request) :
      Restores options request

theorem Restores.minds {options : Load.Options} {asked : SqlBackup.Request}
    (h : Restores options asked) : Minds options.database asked := by
  cases h with
  | acquire | tell => exact Load.minds_of_silent (by simp)
  | drop s => exact Load.minds_drop
  | loads h => exact h.minds

/-- The restore of one database tells where it came from. -/
theorem asks_restoreOne (options : Load.Options) (hrestorer : options.restorer = .installed)
    (source : String) (dropFirst : Bool) (index total : Nat) :
    (restoreOne options source dropFirst index total).Asks (Restores options) fun restored =>
      (restored.source, restored.target) = (source, options.database) := by
  rw [restoreOne]
  refine (Work.asks_request (.tell _)).bind fun _ _ => ?_
  refine Work.Asks.bind (m := fun _ => True)
    (Work.asks_ofExcept (Job.asks_request .acquire fun _ _ _ => trivial)) fun s _ => ?_
  have hdump := (Load.asks_dump s options hrestorer).widen fun _ h =>
    (Restores.loads h : Restores options _)
  have hload : (do
      let stats ← inPercent (Load.dump s options)
      Work.tell (.finished options.database)
      pure { source, target := options.database, stats } : Work Restored).Asks (Restores options)
        fun restored => (restored.source, restored.target) = (source, options.database) := by
    refine Work.Asks.bind (m := fun _ => True) (Job.Asks.mapEvents hdump fun request h => ?_)
      fun stats _ => ?_
    · cases request with
      | tell event => exact .tell _
      | _ => exact h
    exact (Work.asks_request (.tell _)).bind fun _ _ => Work.asks_pure rfl
  dsimp only
  split
  · exact (Work.asks_call (.drop s)).bind fun _ _ => hload
  · exact hload

/-! ### The whole restore -/

/-- What a restore that succeeds has planned, and what comes of it. -/
theorem planned_of_carriesOut {restored : List Restored}
    (hwhole : m.files.map (·.database) = m.databases)
    (hget : ((get settings request.id).run.run host s).1.result = .ok (.ok m))
    (h : Plan.CarriesOut host (restorePlan settings request) s (.ok (.ok restored)) s') :
    ∃ selection, ((restorePlan settings request).run.run host s).1.result =
        .ok (.ok (planOf settings request selection)) ∧
      selection.files.map (·.database) = chosen m request.databases ∧
      restored.map (fun r => (r.source, r.target)) =
        selection.files.map fun file => (file.database, targetOf request file.database) := by
  obtain ⟨p, outcomes, t, hdone, hruns, hresult⟩ := h.of_value
  obtain ⟨talk, htalk⟩ := Job.exists_dialogue hdone
  obtain ⟨files, hfiles, rfl⟩ := planned_of_dialogue hget htalk
  have hgather : Pool.gather .restoreOf (files.map fun file => targetOf request file.database)
      outcomes = .ok restored := Except.ok.inj hresult
  refine ⟨⟨m, files⟩, hdone, map_database_chooseFiles hwhole hfiles, ?_⟩
  have hwork (i : Nat) (file : Manifest.File) := (Work.asks_mapFault
    (g := .restoreOf (targetOf request file.database)) (asks_restoreOne
      (loadOptions settings request m file) rfl file.database request.dropFirst (i + 1)
      files.length)).widen fun _ _ => trivial
  exact hruns.map_values (f := fun r => (r.source, r.target)) hwork (by simp) hgather

/-- Each job of a restore asks what the restore of its dump asks. -/
theorem restores_of_restoreJobs {selection : Selection} {i : Nat}
    {job : Job (Except Fault Restored)}
    (h : ((restoreJobs settings request selection).map ExceptT.run)[i]? = some job) :
    ∃ file, selection.files[i]? = some file ∧
      job.Asks (Restores (loadOptions settings request selection.manifest file))
        fun _ => True := by
  rw [List.getElem?_map, restoreJobs, List.getElem?_mapIdx, Option.map_map,
    Option.map_eq_some_iff] at h
  obtain ⟨file, hfile, rfl⟩ := h
  exact ⟨file, hfile, Job.Asks.mono (Work.asks_mapFault (asks_restoreOne
    (loadOptions settings request selection.manifest file) rfl file.database request.dropFirst
      (i + 1) selection.files.length)) fun _ _ => trivial⟩

theorem asks_restoreJobs {selection : Selection} {i : Nat} {job : Job (Except Fault Restored)}
    (h : ((restoreJobs settings request selection).map ExceptT.run)[i]? = some job) :
    ∃ file, selection.files[i]? = some file ∧
      job.Asks (Minds (targetOf request file.database)) fun _ => True := by
  obtain ⟨file, hfile, hasks⟩ := restores_of_restoreJobs h
  exact ⟨file, hfile, hasks.widen fun _ => Restores.minds⟩

/-- A restore of a backup that was made takes each database of its choice once and in order, under
the name that the renames have for it. These names are distinct exactly if the renames send no two
of the databases to one name. In whatever order the loads take turns, each names to the server only
the database that it is to fill. -/
theorem targets_of_carriesOut {τ : Type} {host' : Host τ} {u u' : τ} {settings' : Settings}
    {made : Request} {listed : List String}
    (hlisted : made.databases = [] → Lists host' settings' u listed) (hnodup : listed.Nodup)
    (hmade : Plan.CarriesOut host' (plan settings' made) u (.ok (.ok m)) u')
    (hget : ((get settings request.id).run.run host s).1.result = .ok (.ok m))
    {restored : List Restored}
    (h : Plan.CarriesOut host (restorePlan settings request) s (.ok (.ok restored)) s') :
    restored.map (·.source) = chosen m request.databases ∧
    (restored.map (·.source)).Nodup ∧
    restored.map (·.target) = (restored.map (·.source)).map (targetOf request) ∧
    ((restored.map (·.target)).Nodup ↔ ∀ a ∈ chosen m request.databases,
      ∀ b ∈ chosen m request.databases, targetOf request a = targetOf request b → a = b) ∧
    ∃ p, ((restorePlan settings request).run.run host s).1.result = .ok (.ok p) ∧
      ∀ moves t, Pool.History host (.start p.width (p.jobs.map ExceptT.run)
          ((restorePlan settings request).run.run host s).2) moves t →
        ∀ (i : Nat) (database : String), ∀ asked ∈ Pool.askedBy i moves,
          Addresses database asked.request → (restored.map (·.target))[i]? = some database := by
  obtain ⟨hmeant, hwhole⟩ := databases_of_carriesOut hlisted hmade
  obtain ⟨selection, hplan, hchosen, hentries⟩ := planned_of_carriesOut hwhole hget h
  have hfirst := congrArg (List.map Prod.fst) hentries
  have hsecond := congrArg (List.map Prod.snd) hentries
  rw [List.map_map, List.map_map] at hfirst hsecond
  have hsources : restored.map (·.source) = chosen m request.databases := by
    rw [← hchosen]
    exact hfirst
  have htargets : restored.map (·.target) =
      (restored.map (·.source)).map (targetOf request) := by
    rw [hsources, ← hchosen, List.map_map]
    exact hsecond
  have hdistinct : (restored.map (·.source)).Nodup := by
    rw [hsources]
    exact nodup_chosen (hmeant ▸ nodup_meant hnodup)
  refine ⟨hsources, hdistinct, htargets, ?_, _, hplan, ?_⟩
  · rw [htargets, List.nodup_map_iff_inj_on hdistinct, hsources]
  · intro moves t hturns i database asked hasked haddresses
    obtain ⟨job, rest, hjob, hleads⟩ := hturns.exists_leads hasked
    obtain ⟨file, hfile, hasks⟩ := asks_restoreJobs hjob
    rw [(hasks.leads hleads).1 asked hasked database haddresses, htargets, hsources, ← hchosen,
      List.map_map, List.getElem?_map, hfile]
    rfl

/-! ### Two databases -/

/-- To get a backup, only its manifest is looked at, and that only under what can name a backup. -/
theorem asks_get {allowed : SqlBackup.Request → Prop} (settings : Settings) (id : String)
    (h : isName id = true → ∀ call : Files.Call,
      call.Views (Manifest.pathIn (settings.directory id)) → allowed (.file call)) :
    (get settings id).Asks allowed fun _ => isName id = true := by
  rw [get]
  refine Work.asks_ofResult_bind fun _ hname => ?_
  have hid : isName id = true := by
    by_contra hno
    rw [requireName, if_neg hno] at hname
    cases hname
  refine (Work.asks_request (h hid _ .kind)).bind fun kind _ => ?_
  split
  · rw [Manifest.read]
    refine (Dump.asks_bytesOf (h hid _ .read)).bind fun bytes _ => ?_
    split
    · exact Work.asks_fail
    · exact (Work.asks_ofResult _).mono fun _ _ _ _ => hid
  · exact Work.asks_fail

/-- Where a manifest is stored it is got, and nothing is changed by that. -/
theorem run_get_of_stored {w : World} {id : String} (hid : isName id = true) (hsound : m.Sound)
    (hstored : w.files.open? (Manifest.pathIn (settings.directory id)) =
      .ok (.file (Text.Utf8.encode m.text))) :
    ((get settings id).run.run Scripted.host w).1.result = .ok (.ok m) ∧
      ((get settings id).run.run Scripted.host w).2 = w := by
  obtain ⟨_, hresult, _, rfl, rfl, -⟩ :=
    (succeeds_get Scripted.hasFiles_host (Scripted.tells_host _) rfl hid hsound hstored).run
  obtain ⟨talk, htalk⟩ := Job.exists_dialogue hresult
  let looks : SqlBackup.Request → Prop := fun request =>
    ∃ path call, request = .file call ∧ call.Views path
  let same : World → Prop := fun v => v = w
  have hsame : ∀ request v, looks request → same v →
      same (Scripted.host.answer request v).2 := by
    rintro _ v ⟨path, call, rfl, h⟩ hv
    cases h <;> exact hv
  have hasks : (get settings id).Asks looks fun _ => isName id = true :=
    asks_get settings id fun _ call h => ⟨_, call, rfl, h⟩
  exact ⟨hresult, (hasks.dialogue hsame rfl htalk).1⟩

def bothDatabases : Request := { databases := ["a", "b"] }

/-- Restores what has been made of both databases, under other names. -/
def renamed (renames : List (String × String)) : RestoreRequest :=
  { id := "20240301-120000", databases := ["b", "a", "b"], renames, dropFirst := true
    verifies := false }

/-- A backup of both databases, as it is made below an empty root. -/
@[irreducible]
def backedUp : Except String (Except Fault Manifest) × World :=
  create Scripted.host oneByOne bothDatabases
    (waiting ⟨1709294400, 0⟩ ⟨[(["b"], .directory)]⟩)

/-- The backup has been made and can be got. How a restore of it ends is told by its dumps. -/
theorem restore_backedUp : ∃ m, backedUp = (.ok (.ok m), backedUp.2) ∧
    ∀ renames, ((get oneByOne (renamed renames).id).run.run Scripted.host backedUp.2).1.result =
        .ok (.ok m) ∧
      restore Scripted.host oneByOne (renamed renames) backedUp.2 =
        Plan.carryOut Scripted.host (restoreFrom oneByOne (renamed renames)
          ((made? backedUp.1).getD default)) backedUp.2 := by
  have hid : (made? backedUp.1).map (·.id) = some "20240301-120000" ∧
      ∀ m ∈ made? backedUp.1, m.Sound := by decide +kernel
  obtain ⟨m, hm, hname⟩ := Option.map_eq_some_iff.mp hid.1
  have hends : backedUp = (.ok (.ok m), backedUp.2) := Prod.ext (made?_eq_some.mp hm) rfl
  have hcreated := hends
  generalize backedUp.2 = w at hends hcreated ⊢
  rw [backedUp] at hcreated
  obtain ⟨talk, hlog, hpresent⟩ := (Log.empty hasEmpty_waiting).create Scripted.hasFiles_host rfl
    (lists_of_named _ rfl) List.nodup_nil (by decide) hcreated
  obtain ⟨-, base, place, -, hcatalogue⟩ := hlog.catalogue Scripted.hasFiles_host
  rw [hpresent] at hcatalogue
  have hstored := (hcatalogue.kept m List.mem_cons_self).stored
  have hvalid : isName m.id = true := hname.symm ▸ (by decide)
  obtain ⟨hget, hsame⟩ := run_get_of_stored hvalid (hid.2 m hm) hstored
  refine ⟨m, hends, fun renames => ?_⟩
  have hasked : (renamed renames).id = m.id := hname.symm
  rw [restore, restorePlan_eq, hasked, Plan.carryOut_bind hget, hsame, hm, Option.getD_some]
  exact ⟨hget, rfl⟩

/-- Each database gets the name of the other. -/
theorem targets_of_swapped : ∃ m restored w,
    backedUp = (.ok (.ok m), backedUp.2) ∧
    restore Scripted.host oneByOne (renamed [("a", "b"), ("b", "a")]) backedUp.2 =
      (.ok (.ok restored), w) ∧
    restored.map (·.source) = ["b", "a"] ∧ restored.map (·.target) = ["a", "b"] ∧
    (restored.map (·.target)).Nodup := by
  obtain ⟨m, hmade, hrestore⟩ := restore_backedUp
  have hends : ends (Plan.carryOut Scripted.host (restoreFrom oneByOne
      (renamed [("a", "b"), ("b", "a")]) ((made? backedUp.1).getD default)) backedUp.2).1 =
        some true := by decide +kernel
  obtain ⟨hget, hcarried⟩ := hrestore [("a", "b"), ("b", "a")]
  rw [← hcarried] at hends
  generalize backedUp.2 = w at hmade hget hends ⊢
  obtain ⟨restored, hrestored⟩ := exists_value hends
  have hcarries := Plan.carriesOut_carryOut Scripted.host (plan oneByOne bothDatabases)
    (waiting ⟨1709294400, 0⟩ ⟨[(["b"], .directory)]⟩)
  rw [← create, ← backedUp, hmade] at hcarries
  have hcarries' := Plan.carriesOut_carryOut Scripted.host
    (restorePlan oneByOne (renamed [("a", "b"), ("b", "a")])) w
  rw [← restore, hrestored] at hcarries'
  obtain ⟨hsources, -, htargets, hdistinct, -⟩ := targets_of_carriesOut
    (lists_of_named _ rfl) List.nodup_nil hcarries hget hcarries'
  have hchosen : chosen m ["b", "a", "b"] = ["b", "a"] := rfl
  rw [renamed, hchosen] at hsources hdistinct
  refine ⟨m, restored, _, hmade, Prod.ext hrestored rfl, hsources, ?_, hdistinct.mpr (by decide)⟩
  rw [htargets, hsources]
  decide

/-- Both databases are restored into one. -/
theorem targets_of_merged : ∃ m restored w,
    backedUp = (.ok (.ok m), backedUp.2) ∧
    restore Scripted.host oneByOne (renamed [("a", "x"), ("b", "x")]) backedUp.2 =
      (.ok (.ok restored), w) ∧
    restored.map (·.target) = ["x", "x"] ∧ ¬ (restored.map (·.target)).Nodup := by
  obtain ⟨m, hmade, hrestore⟩ := restore_backedUp
  have hends : (made? (Plan.carryOut Scripted.host (restoreFrom oneByOne
      (renamed [("a", "x"), ("b", "x")]) ((made? backedUp.1).getD default)) backedUp.2).1).map
        (·.map (·.target)) = some ["x", "x"] := by decide +kernel
  rw [← (hrestore _).2] at hends
  generalize backedUp.2 = w at hmade hends ⊢
  obtain ⟨restored, hrestored, htargets⟩ := Option.map_eq_some_iff.mp hends
  refine ⟨m, restored, _, hmade, Prod.ext (made?_eq_some.mp hrestored) rfl, htargets, ?_⟩
  rw [htargets]
  decide

end Backup

end SqlBackup
