import Mathlib
import SqlBackup.Proofs.Backup.Catalogue
import SqlBackup.Proofs.Job.Dialogue
import SqlBackup.Proofs.Pool.Moments

/-!
# What is asked to make a backup

Until a backup has its directory, directories are made and nothing else. From then on all that is
asked for is done in that directory: dumps and a draft of the manifest are written, the draft gets
the name of a manifest, or the directory is removed.
-/
namespace SqlBackup

open Files.Path (IsName join)

/-- Whether a file has been given the name of a manifest. -/
def Asked.publishes : Asked → Bool
  | ⟨.file (.rename _ target), .ok (.ok ())⟩ =>
      Files.Path.fileName? target == some Manifest.filename
  | _ => false

theorem Files.Path.fileName?_join {name : String} (directory : String) (hname : IsName name) :
    fileName? (join directory name) = some name := by
  simp [fileName?, components, split_join_front directory hname.noSlash, List.filter_append,
    hname.ne_empty, hname.ne_dot, hname.ne_dots]

namespace Backup

variable {settings : Settings} {request : Request} {draft : Draft} {directory : String}

/-! ### Before there is a directory -/

/-- What is asked before a backup has its directory. -/
inductive Prepares (settings : Settings) : SqlBackup.Request → Prop
  | silent {request : SqlBackup.Request} (h : ∀ call, request ≠ .file call) :
      Prepares settings request
  | root : Prepares settings (.file (.makeDirectories settings.root))
  | directory {id : String} {i : Calendar.Instant} (h : IsNamed id i) :
      Prepares settings (.file (.makeDirectory (settings.directory id)))

theorem asks_claim (i : Calendar.Instant) (trials n : Nat) :
    (claim settings i.compact trials n).Asks (Prepares settings) fun _ => True := by
  induction trials generalizing n with
  | zero => exact Work.asks_fail
  | succ trials ih =>
    rw [claim]
    refine (Work.asks_request (.directory ⟨n, rfl⟩)).bind fun answer _ => ?_
    split
    · exact Work.asks_pure trivial
    · exact ih (n + 1)
    · exact Work.asks_fail

theorem asks_connect (settings : Settings) :
    settings.connect.Asks SqlBackup.Request.IsSilent fun _ => True := by
  rw [Settings.connect]
  refine Work.Asks.bind (m := fun _ => True) (Work.asks_ofExcept
    (Job.asks_request (by simp [SqlBackup.Request.IsSilent]) fun _ _ _ => trivial)) fun s _ => ?_
  exact (Work.asks_call (SqlBackup.Request.isSilent_session s _)).bind fun _ _ =>
    Work.asks_pure trivial

theorem asks_chooseDatabases (s : Session) (requested : List String) :
    (chooseDatabases s requested).Asks (Prepares settings) fun _ => True := by
  rw [chooseDatabases]
  split
  · exact (Work.asks_call (.silent (by simp))).bind fun _ _ => Work.asks_pure trivial
  · exact Work.asks_pure trivial

theorem asks_plan (settings : Settings) (request : Request) :
    (plan settings request).Asks (Prepares settings) fun _ => True := by
  rw [plan, prepare]
  refine Work.Asks.bind (m := fun _ => True) ?_ fun draft _ => Work.asks_pure trivial
  refine ((asks_connect settings).widen fun _ h => .silent h).bind fun s _ => ?_
  refine (asks_chooseDatabases s request.databases).bind fun databases _ => ?_
  split
  · exact Work.asks_fail
  refine (Work.asks_request (.silent (by simp))).bind fun timestamp _ => ?_
  refine Work.Asks.bind (m := fun _ => True) ?_ fun id _ => Work.asks_pure trivial
  rw [allocate]
  refine (Work.asks_onPath (Job.asks_request .root fun _ => trivial)).bind fun _ _ => ?_
  exact asks_claim timestamp nameTrials 0

/-! ### In the directory -/

/-- What is asked to write a file in a directory that is no manifest. -/
def Writes (directory : String) (request : SqlBackup.Request) : Prop :=
  ∃ name, IsName name ∧ name ≠ Manifest.filename ∧ request.IsOn (join directory name)

/-- What is asked once a backup has its directory. -/
inductive Fills (directory : String) : SqlBackup.Request → Prop
  | writes {request : SqlBackup.Request} (h : Writes directory request) : Fills directory request
  | rename : Fills directory (.file (.rename (join directory Manifest.draftFilename)
      (Manifest.pathIn directory)))
  | removeTree : Fills directory (.file (.removeTree directory))

theorem writes_draft {call : Files.Call} (h : call.IsOn (join directory Manifest.draftFilename)) :
    Writes directory (.file call) :=
  ⟨Manifest.draftFilename, Manifest.isName_draftFilename, by decide, h⟩

theorem asks_exportOne (options : Export.Options) (index total : Nat) :
    (exportOne options index total).Asks (SqlBackup.Request.IsOn options.path) fun f =>
      f.database = options.database := by
  rw [exportOne]
  refine (Work.asks_request trivial).bind fun _ _ => ?_
  refine Work.Asks.bind (m := fun _ => True)
    (Work.asks_ofExcept (Job.asks_request trivial fun _ _ _ => trivial)) fun s _ => ?_
  refine (Export.asks_database s options).bind fun stats _ => ?_
  exact (Dump.asks_digest .read).bind fun checksum _ =>
    (Work.asks_request trivial).bind fun _ _ => Work.asks_pure rfl

/-- Each export touches no other file than the dump of its database. -/
theorem asks_exportJob {i : Nat} {job : Job (Except Fault Manifest.File)}
    (h : ((exportJobs settings request draft).map ExceptT.run)[i]? = some job) :
    ∃ database, draft.databases[i]? = some database ∧
      job.Asks (SqlBackup.Request.IsOn (join (settings.directory draft.id)
        (dumpName database draft.compression))) fun _ => True := by
  rw [List.getElem?_map, exportJobs, List.getElem?_mapIdx, Option.map_map,
    Option.map_eq_some_iff] at h
  obtain ⟨database, hdatabase, rfl⟩ := h
  exact ⟨database, hdatabase, Job.Asks.mono (Work.asks_mapFault (asks_exportOne
    (exportOptions settings request draft.compression (settings.directory draft.id) database)
      (i + 1) draft.databases.length)) fun _ _ => trivial⟩

/-- What is asked to write the dump of one of the databases, wherever its path leads. -/
def Dumps (settings : Settings) (draft : Draft) (request : SqlBackup.Request) : Prop :=
  ∃ database ∈ draft.databases, request.IsOn
    (join (settings.directory draft.id) (dumpName database draft.compression))

theorem Dumps.writes {asked : SqlBackup.Request} (h : Dumps settings draft asked)
    (hnames : ∀ database ∈ draft.databases, '/' ∉ database.toList) :
    Writes (settings.directory draft.id) asked := by
  obtain ⟨database, hdatabase, hon⟩ := h
  exact ⟨_, isName_dumpName (hnames database hdatabase) _, (dumpName_ne _ _).1, hon⟩

theorem asks_dumps : ∀ job ∈ (exportJobs settings request draft).map ExceptT.run,
    job.Asks (Dumps settings draft) fun _ => True := by
  intro job hjob
  obtain ⟨i, hi⟩ := List.mem_iff_getElem?.mp hjob
  obtain ⟨database, hdatabase, hasks⟩ := asks_exportJob hi
  exact hasks.widen fun request h => ⟨database, List.mem_of_getElem? hdatabase, h⟩

/-- No export touches a manifest. -/
theorem asks_exportJobs (hnames : ∀ database ∈ draft.databases, '/' ∉ database.toList) :
    ∀ job ∈ (exportJobs settings request draft).map ExceptT.run,
      job.Asks (Writes (settings.directory draft.id)) fun _ => True :=
  fun job hjob => (asks_dumps job hjob).widen fun _ h => h.writes hnames

/-- What is left of a backup whose dumps are there: its manifest is written. -/
def manifestOf (settings : Settings) (request : Request) (draft : Draft)
    (outcomes : List (Pool.Outcome Fault Manifest.File)) : Work Manifest := do
  let files ← Work.ofResult (Pool.gather .backupOf draft.databases outcomes)
  (draft.manifest request files).write (settings.directory draft.id)
  pure (draft.manifest request files)

theorem conclude_eq (outcomes : List (Pool.Outcome Fault Manifest.File)) :
    conclude settings request draft outcomes =
      orRemove (settings.directory draft.id) (manifestOf settings request draft outcomes) := rfl

/-- As long as nothing has failed the directory is not removed. -/
theorem asks_manifestOf (outcomes : List (Pool.Outcome Fault Manifest.File)) :
    (manifestOf settings request draft outcomes).Asks
      (fun asked => Fills (settings.directory draft.id) asked ∧
        ∀ path, asked ≠ .file (.removeTree path)) fun m =>
      ∃ files, Pool.gather .backupOf draft.databases outcomes = .ok files ∧
        m = draft.manifest request files := by
  refine Work.Asks.bind
    (m := fun files => Pool.gather .backupOf draft.databases outcomes = .ok files) ?_
    fun files hfiles => ?_
  · intro result hresult
    exact hresult
  · refine Work.Asks.bind (m := fun _ => True) ?_ fun _ _ => Work.asks_pure ⟨files, hfiles, rfl⟩
    rw [Manifest.write]
    refine (Work.asks_onPath (Job.asks_request ⟨.writes (writes_draft .create), by simp⟩
      fun _ => trivial)).bind fun _ _ => ?_
    refine (Work.asks_onPath (Job.asks_request ⟨.writes (writes_draft (.append _)), by simp⟩
      fun _ => trivial)).bind fun _ _ => ?_
    refine (Work.asks_onPath (Job.asks_request ⟨.writes (writes_draft .sync), by simp⟩
      fun _ => trivial)).bind fun _ _ => ?_
    exact Work.asks_onPath (Job.asks_request ⟨.rename, by simp⟩ fun _ => trivial)

theorem asks_orRemove {α : Type} {work : Work α} {wanted : α → Prop}
    (h : work.Asks (Fills directory) wanted) :
    (orRemove directory work).Asks (Fills directory) wanted := by
  rw [orRemove]
  refine (Work.asks_outcome h).bind fun result hresult => ?_
  cases result with
  | ok a => exact Work.asks_pure (hresult a rfl)
  | error fault => exact (Work.asks_request .removeTree).bind fun _ _ => Work.asks_fail

/-- What concludes a backup stays in its directory. If it comes to a manifest, that is the one of
the dumps that were gathered. -/
theorem asks_conclude (outcomes : List (Pool.Outcome Fault Manifest.File)) :
    (conclude settings request draft outcomes).Asks (Fills (settings.directory draft.id)) fun m =>
      ∃ files, Pool.gather .backupOf draft.databases outcomes = .ok files ∧
        m = draft.manifest request files := by
  rw [conclude_eq]
  exact asks_orRemove ((asks_manifestOf outcomes).widen fun _ h => h.1)

theorem publishes_rename (directory : String) : Asked.publishes
    ⟨.file (.rename (join directory Manifest.draftFilename) (Manifest.pathIn directory)),
      .ok (.ok ())⟩ = true := by
  have hname := Files.Path.fileName?_join directory Manifest.isName_filename
  simp [Asked.publishes, Manifest.pathIn, hname]

/-- A manifest is written by giving it its name, and nothing is done after that. -/
theorem yieldsBy_write (m : Manifest) (directory : String) :
    (m.write directory).run.YieldsBy fun asked => asked.publishes = true := by
  refine Job.yieldsBy_ask (by simp [Asked.publishes]) fun answer => ?_
  cases answer with
  | error fault => trivial
  | ok value =>
    refine Job.yieldsBy_ask (by simp [Asked.publishes]) fun answer => ?_
    cases answer with
    | error fault => trivial
    | ok value =>
      refine Job.yieldsBy_ask (by simp [Asked.publishes]) fun answer => ?_
      cases answer with
      | error fault => trivial
      | ok value =>
        refine ⟨by simp [Asked.publishes], fun answer => ?_⟩
        cases answer with
        | error fault => exact ⟨by simp [Asked.publishes], fun _ => trivial⟩
        | ok value => exact ⟨fun _ => rfl, fun h => absurd (publishes_rename directory) h⟩

theorem run_orRemove {α : Type} (directory : String) (work : Work α) :
    (orRemove directory work).run = work.run.bind fun result =>
      match result with
      | .ok a => .done (.ok a)
      | .error fault => .ask (.file (.removeTree directory)) fun _ => .done (.error fault) :=
  Job.bind_assoc work.run _ _

/-- A backup comes to its manifest exactly by giving that its name, and does nothing after it. -/
theorem yieldsBy_conclude (outcomes : List (Pool.Outcome Fault Manifest.File)) :
    (conclude settings request draft outcomes).run.YieldsBy fun asked => asked.publishes = true := by
  rw [conclude_eq, manifestOf, run_orRemove]
  refine Job.YieldsBy.bind ?_ (fun m => rfl) fun fault =>
    Job.yieldsBy_ask (by simp [Asked.publishes]) fun _ => trivial
  cases hgather : Pool.gather Fault.backupOf draft.databases outcomes with
  | error fault => exact trivial
  | ok files =>
    rw [Work.ofResult_bind, Work.run_bind_eq]
    exact (yieldsBy_write _ _).bind (fun _ => rfl) fun fault => trivial

end Backup

end SqlBackup
