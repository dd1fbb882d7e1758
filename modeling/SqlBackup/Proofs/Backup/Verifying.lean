import Mathlib
import SqlBackup.Proofs.Backup.Access
import SqlBackup.Proofs.Files.Looking

/-!
# What a restore makes sure of

A restore is planned by looking at files: at the manifest of the backup, and at the dumps that are
chosen from it. If any of that is not as it has to be, the restore ends there. By then nothing has
been asked of the server and no file has been changed, and of the dumps the first that is not as
recorded is reported.
-/
namespace SqlBackup.Backup

open Scripted (Tree World)

/-- The manifest that a tree of files holds under a name. -/
structure Holds (t : Tree) (settings : Settings) (id : String) (m : Manifest) : Prop where
  isName : isName id = true
  stored : ∃ bytes source, t.open? (Manifest.pathIn (settings.directory id)) = .ok (.file bytes) ∧
    Text.Utf8.decode? bytes = some source ∧ Manifest.ofText source = .ok m

/-- What is wrong with the dump at a path of which this digest is recorded. -/
inductive Flaw (t : Tree) (path : String) (checksum : Option String) : Fault → Prop
  | missing (h : ∀ bytes, t.open? path ≠ .ok (.file bytes)) :
      Flaw t path checksum (.io path (.layer .notFound "dump file missing"))
  | changed {bytes : List UInt8} {expected : String} (h : t.open? path = .ok (.file bytes))
      (hexpected : checksum = some expected) (hne : Digest.Sha256.hex bytes ≠ expected) :
      Flaw t path checksum (.checksumMismatch path expected (Digest.Sha256.hex bytes))

/-- Why a backup cannot be restored as asked. -/
inductive Unfit (t : Tree) (settings : Settings) (request : RestoreRequest) : Prop
  | malformed (h : isName request.id = false)
  | unknown (h : ∀ bytes,
      t.open? (Manifest.pathIn (settings.directory request.id)) ≠ .ok (.file bytes))
  | unreadable {bytes : List UInt8}
      (hopen : t.open? (Manifest.pathIn (settings.directory request.id)) = .ok (.file bytes))
      (h : ∀ source m, Text.Utf8.decode? bytes = some source → Manifest.ofText source ≠ .ok m)
  | unrecorded {m : Manifest} {database : String} (hm : Holds t settings request.id m)
      (hasked : database ∈ request.databases) (h : m.file? database = none)
  | flawed {m : Manifest} {files : List Manifest.File} {file : Manifest.File} {cause : Fault}
      (hm : Holds t settings request.id m) (hfiles : chooseFiles m request.databases = .ok files)
      (hverifies : request.verifies = true) (hfile : file ∈ files)
      (h : Flaw t (dumpPath settings m file) file.checksum cause)

/-- What is reported of a backup that cannot be restored: the first thing that is wrong, in the order
in which the databases are asked for and the dumps are chosen. -/
inductive Reports (t : Tree) (settings : Settings) (request : RestoreRequest) : Fault → Prop
  | malformed (h : isName request.id = false) :
      Reports t settings request (.invalidOptions ("Invalid backup id '" ++ request.id ++ "'"))
  | unknown (hid : isName request.id = true) (h : ∀ bytes,
      t.open? (Manifest.pathIn (settings.directory request.id)) ≠ .ok (.file bytes)) :
      Reports t settings request (.backupNotFound request.id)
  | noText {bytes : List UInt8} (hid : isName request.id = true)
      (hopen : t.open? (Manifest.pathIn (settings.directory request.id)) = .ok (.file bytes))
      (h : Text.Utf8.decode? bytes = none) :
      Reports t settings request (.io (Manifest.pathIn (settings.directory request.id))
        (.layer .invalidData "stream did not contain valid UTF-8"))
  | noManifest {bytes : List UInt8} {source : String} {cause : ManifestFault}
      (hid : isName request.id = true)
      (hopen : t.open? (Manifest.pathIn (settings.directory request.id)) = .ok (.file bytes))
      (hsource : Text.Utf8.decode? bytes = some source) (h : Manifest.ofText source = .error cause) :
      Reports t settings request (.manifest cause)
  | unrecorded {m : Manifest} {front back : List String} {database : String}
      (hm : Holds t settings request.id m)
      (hasked : request.databases.eraseDups = front ++ database :: back)
      (hfront : ∀ name ∈ front, m.file? name ≠ none) (h : m.file? database = none) :
      Reports t settings request (.invalidOptions
        ("Database '" ++ database ++ "' is not part of backup " ++ m.id))
  | flawed {m : Manifest} {front back : List Manifest.File} {file : Manifest.File} {cause : Fault}
      (hm : Holds t settings request.id m)
      (hfiles : chooseFiles m request.databases = .ok (front ++ file :: back))
      (hverifies : request.verifies = true)
      (hfront : ∀ other ∈ front, ∀ cause', ¬ Flaw t (dumpPath settings m other) other.checksum cause')
      (h : Flaw t (dumpPath settings m file) file.checksum cause) :
      Reports t settings request (.restoreOf file.database cause)

variable {t : Tree} {settings : Settings} {request : RestoreRequest} {m : Manifest}
  {file : Manifest.File} {front back : List Manifest.File} {path directory : String}
  {cause fault : Fault} {fails : Prop}

/-- What some members of a list have, one of them has first. -/
theorem exists_first {α : Type} {p : α → Prop} {xs : List α} {x : α} (hx : x ∈ xs) (h : p x) :
    ∃ front y back, xs = front ++ y :: back ∧ (∀ z ∈ front, ¬ p z) ∧ p y := by
  classical
  obtain ⟨y, hy⟩ := Option.isSome_iff_exists.mp
    (List.find?_isSome.mpr ⟨x, hx, decide_eq_true h⟩ : (xs.find? (decide <| p ·)).isSome = true)
  obtain ⟨hfound, front, back, hsplit, hfront⟩ := List.find?_eq_some_iff_append.mp hy
  exact ⟨front, y, back, hsplit, fun z hz => by simpa using hfront z hz, of_decide_eq_true hfound⟩

/-- Of whatever is wrong with a backup something is reported. -/
theorem Unfit.exists_reports (h : Unfit t settings request) :
    ∃ fault, Reports t settings request fault := by
  by_cases hid : isName request.id = true
  · cases h with
    | malformed h => exact absurd hid (by simp [h])
    | unknown h => exact ⟨_, .unknown hid h⟩
    | @unreadable bytes hopen h =>
      cases hsource : Text.Utf8.decode? bytes with
      | none => exact ⟨_, .noText hid hopen hsource⟩
      | some source =>
        cases hm : Manifest.ofText source with
        | error cause => exact ⟨_, .noManifest hid hopen hsource hm⟩
        | ok m => exact absurd hm (h source m hsource)
    | @unrecorded m database hm hasked h =>
      obtain ⟨front, first, back, hsplit, hfront, hfirst⟩ :=
        exists_first (p := fun name => m.file? name = none) (List.mem_eraseDups.mpr hasked) h
      exact ⟨_, .unrecorded hm hsplit hfront hfirst⟩
    | @flawed m files file cause hm hfiles hverifies hfile h =>
      obtain ⟨front, first, back, rfl, hfront, cause, hfirst⟩ := exists_first
        (p := fun file => ∃ cause, Flaw t (dumpPath settings m file) file.checksum cause) hfile
        ⟨cause, h⟩
      exact ⟨_, .flawed hm hfiles hverifies
        (fun other hother cause' hflaw => hfront other hother ⟨cause', hflaw⟩) hfirst⟩
  · exact ⟨_, .malformed (by simpa using hid)⟩

/-! ### The parts of the planning -/

section Parts

variable {α : Type}

/-- What follows from what a path names. A call that fails tells of nothing. -/
theorem comesTo_kindOf {truth : Except Fault α} {f : Option Files.Kind → Work α}
    (h : (f ((t.open? path).toOption.map Files.Entry.kind)).ComesTo t fails truth)
    (hnone : f none = .fail fault) : (kindOf path >>= f).ComesTo t fails truth := by
  show Job.Looks t fails (kindOf path >>= f).run _
  rw [Work.run_bind_eq]
  show Job.Looks t fails (((Job.file (.kind path)).bind _).bind _) _
  rw [Job.looks_bind, Job.looks_bind]
  refine Job.looks_file (.kind path) ?_
  rintro reply (rfl | ⟨hfails, other, hanswers⟩)
  · exact h
  · cases hanswers with
    | done => exact h
    | refused _ cause =>
      show Job.Looks t fails (f none).run _
      rw [hnone]
      exact .inr ⟨hfails, fault, rfl⟩

variable {work : Work α} {bytes : List UInt8}

/-- Work on a file is done if there is one. -/
theorem comesTo_ofFile {truth : Except Fault α} (h : t.open? path = .ok (.file bytes))
    (hwork : work.ComesTo t fails truth) :
    (kindOf path >>= fun kind => if kind == some .file then work else .fail fault).ComesTo t fails
      truth := by
  refine comesTo_kindOf ?_ rfl
  rw [h]
  exact hwork

/-- If there is none, the work fails. -/
theorem comesTo_ofNoFile (h : ∀ bytes, t.open? path ≠ .ok (.file bytes)) :
    (kindOf path >>= fun kind => if kind == some .file then work else .fail fault).ComesTo t fails
      (.error fault) := by
  refine comesTo_kindOf ?_ rfl
  cases hentry : t.open? path with
  | error cause => exact Work.comesTo_ofResult _
  | ok entry =>
    cases entry with
    | file bytes => exact absurd hentry (h bytes)
    | directory => exact Work.comesTo_ofResult _

end Parts

section Get

variable {id : String} {bytes : List UInt8}

/-- What a name that can name a backup comes to depends on the manifest. -/
theorem get_eq (hid : isName id = true) : get settings id =
    kindOf (Manifest.pathIn (settings.directory id)) >>= fun kind =>
      if kind == some .file then Manifest.read (settings.directory id)
      else .fail (.backupNotFound id) := by
  rw [get, requireName, if_pos hid, Work.ofResult_bind]

theorem comesTo_get_malformed (h : isName id = false) : (get settings id).ComesTo t fails
    (.error (.invalidOptions ("Invalid backup id '" ++ id ++ "'"))) := by
  rw [get, requireName, h]
  exact Work.ComesTo.bind_error (Work.comesTo_ofResult _)

theorem comesTo_get_unknown (hid : isName id = true)
    (h : ∀ bytes, t.open? (Manifest.pathIn (settings.directory id)) ≠ .ok (.file bytes)) :
    (get settings id).ComesTo t fails (.error (.backupNotFound id)) := by
  rw [get_eq hid]
  exact comesTo_ofNoFile h

theorem comesTo_get_noText (hid : isName id = true)
    (hopen : t.open? (Manifest.pathIn (settings.directory id)) = .ok (.file bytes))
    (h : Text.Utf8.decode? bytes = none) :
    (get settings id).ComesTo t fails (.error (.io (Manifest.pathIn (settings.directory id))
      (.layer .invalidData "stream did not contain valid UTF-8"))) := by
  rw [get_eq hid]
  refine comesTo_ofFile hopen ?_
  rw [Manifest.read]
  refine (Dump.comesTo_bytesOf hopen).bind ?_
  rw [h]
  exact Work.comesTo_ofResult _

theorem comesTo_get_source {source : String} (hid : isName id = true)
    (hopen : t.open? (Manifest.pathIn (settings.directory id)) = .ok (.file bytes))
    (hsource : Text.Utf8.decode? bytes = some source) :
    (get settings id).ComesTo t fails ((Manifest.ofText source).mapError .manifest) := by
  rw [get_eq hid]
  refine comesTo_ofFile hopen ?_
  rw [Manifest.read]
  refine (Dump.comesTo_bytesOf hopen).bind ?_
  rw [hsource]
  exact Work.comesTo_ofResult _

/-- A manifest that is held under a name is got. -/
theorem Holds.comesTo_get (h : Holds t settings id m) :
    (get settings id).ComesTo t fails (.ok m) := by
  obtain ⟨hid, bytes, source, hopen, hsource, hm⟩ := h
  have hget : (get settings id).ComesTo t fails _ := comesTo_get_source hid hopen hsource
  rwa [hm] at hget

end Get

theorem chooseFiles_eq_error {requested front back : List String} {database : String}
    (hasked : requested.eraseDups = front ++ database :: back)
    (hfront : ∀ name ∈ front, m.file? name ≠ none) (h : m.file? database = none) :
    chooseFiles m requested = .error (.invalidOptions
      ("Database '" ++ database ++ "' is not part of backup " ++ m.id)) := by
  have hsome : requested.isEmpty = false := by
    cases requested with
    | nil => simp at hasked
    | cons _ _ => rfl
  have hlast : requireFile m database = .error (.invalidOptions
      ("Database '" ++ database ++ "' is not part of backup " ++ m.id)) := by
    rw [requireFile, h]
  rw [chooseFiles, hsome, if_neg Bool.false_ne_true, hasked]
  clear hasked hsome
  induction front with
  | nil =>
    rw [List.nil_append, List.mapM_cons, hlast]
    rfl
  | cons name front ih =>
    obtain ⟨hname, hfront⟩ := List.forall_mem_cons.mp hfront
    obtain ⟨file, hfile⟩ := Option.ne_none_iff_exists'.mp hname
    have hfirst : requireFile m name = .ok file := by
      rw [requireFile, hfile]
    rw [List.cons_append, List.mapM_cons, hfirst]
    simp only [bind, Except.bind, ih hfront]

/-- A dump with a flaw is found out. -/
theorem Flaw.comesTo_verify
    (h : Flaw t (Files.Path.join directory file.filename) file.checksum cause) :
    (verify directory file).ComesTo t fails (.error cause) := by
  rw [verify]
  cases h with
  | missing h => exact comesTo_ofNoFile h
  | changed h hexpected hne =>
    refine comesTo_ofFile h ?_
    rw [hexpected]
    refine (Dump.comesTo_digest h).bind ?_
    rw [if_neg hne]
    exact Work.comesTo_ofResult _

/-- A dump without one passes. -/
theorem comesTo_verify
    (h : ∀ cause, ¬ Flaw t (Files.Path.join directory file.filename) file.checksum cause) :
    (verify directory file).ComesTo t fails (.ok ()) := by
  have hthere : ∃ bytes, t.open? (Files.Path.join directory file.filename) = .ok (.file bytes) := by
    by_contra hnone
    push Not at hnone
    exact h _ (.missing hnone)
  obtain ⟨bytes, hopen⟩ := hthere
  rw [verify]
  refine comesTo_ofFile hopen ?_
  cases hchecksum : file.checksum with
  | none => exact Work.comesTo_pure ()
  | some expected =>
    have hsame : Digest.Sha256.hex bytes = expected := by
      by_contra hne
      exact h _ (.changed hopen hchecksum hne)
    refine (Dump.comesTo_digest hopen).bind ?_
    rw [if_pos hsame]
    exact Work.comesTo_pure ()

/-- Dumps are found out up to the first with a flaw. -/
theorem comesTo_verifyAll
    (hfront : ∀ other ∈ front, ∀ cause',
      ¬ Flaw t (Files.Path.join directory other.filename) other.checksum cause')
    (h : Flaw t (Files.Path.join directory file.filename) file.checksum cause) :
    (verifyAll directory (front ++ file :: back)).ComesTo t fails
      (.error (.restoreOf file.database cause)) := by
  induction front with
  | nil =>
    rw [List.nil_append, verifyAll]
    exact Work.ComesTo.bind_error (h.comesTo_verify.mapFault (.restoreOf file.database))
  | cons other front ih =>
    obtain ⟨hother, hfront⟩ := List.forall_mem_cons.mp hfront
    rw [List.cons_append, verifyAll]
    exact ((comesTo_verify hother).mapFault (.restoreOf other.database)).bind (ih hfront)

/-! ### The whole planning -/

/-- The planning of a restore comes to what is reported. -/
theorem Reports.comesTo (h : Reports t settings request fault) :
    (restorePlan settings request).ComesTo t fails (.error fault) := by
  rw [restorePlan_eq]
  cases h with
  | malformed h => exact (comesTo_get_malformed h).bind_error
  | unknown hid h => exact (comesTo_get_unknown hid h).bind_error
  | noText hid hopen h => exact (comesTo_get_noText hid hopen h).bind_error
  | noManifest hid hopen hsource h =>
    have hget : (get settings request.id).ComesTo t fails _ :=
      comesTo_get_source hid hopen hsource
    rw [h] at hget
    exact hget.bind_error
  | unrecorded hm hasked hfront h =>
    refine hm.comesTo_get.bind ?_
    rw [restoreFrom, chooseFiles_eq_error hasked hfront h]
    exact Work.ComesTo.bind_error (Work.comesTo_ofResult _)
  | flawed hm hfiles hverifies hfront h =>
    refine hm.comesTo_get.bind ?_
    rw [restoreFrom, hfiles, Work.ofResult_bind]
    dsimp only
    rw [if_pos hverifies]
    exact (comesTo_verifyAll hfront h).bind_error

/-- No more than one thing is reported. -/
theorem Reports.unique {fault' : Fault} (h : Reports t settings request fault)
    (h' : Reports t settings request fault') : fault = fault' := by
  have hhost : False ∨ Scripted.host.Tells World.files t := .inr (Scripted.tells_host t)
  obtain ⟨_, hresult, rfl | ⟨⟨⟩, -⟩, -⟩ :=
    Job.Looks.run Scripted.hasFiles_host hhost h.comesTo (s := waiting ⟨0, 0⟩ t) rfl
  obtain ⟨_, hresult', rfl | ⟨⟨⟩, -⟩, -⟩ :=
    Job.Looks.run Scripted.hasFiles_host hhost h'.comesTo (s := waiting ⟨0, 0⟩ t) rfl
  exact Except.error.inj (Except.ok.inj (hresult.symm.trans hresult'))

/-! ### What is done by then -/

/-- A request that looks at what some path names. -/
def Looks (asked : SqlBackup.Request) : Prop :=
  ∃ path call, asked = .file call ∧ call.Views path

/-- Whatever a restore is told, it is planned by looking at files. -/
theorem asks_restorePlan (settings : Settings) (request : RestoreRequest) :
    (restorePlan settings request).Asks Looks fun _ => True := by
  rw [restorePlan_eq]
  refine (asks_get settings request.id fun _ call h => ⟨_, call, rfl, h⟩).bind fun m _ => ?_
  exact asks_restoreFrom settings request m fun file _ call h => ⟨_, call, rfl, h⟩

section Host

variable {σ : Type} {host : Host σ} {files : σ → Tree} {s s' : σ} {talk : List Asked}

/-- At every moment up to there nothing has been done but to look. -/
theorem looks_of_planning (hfiles : host.HasFiles files)
    {rest : Job (Except Fault (Plan Restored (List Restored)))}
    (h : (restorePlan settings request).run.Advances host s talk rest s') :
    files s' = files s ∧ (∀ asked ∈ talk, Looks asked.request) ∧
      ∀ call ∈ rest.call?.toList, Looks (.file call) := by
  have hasks := asks_restorePlan settings request
  let kept : List Asked → σ → Prop := fun talk s' =>
    files s' = files s ∧ ∀ asked ∈ talk, Looks asked.request
  have hkept : ∀ talk request s', Looks request → kept talk s' →
      kept (talk ++ [⟨request, (host.answer request s').1.reply⟩]) (host.answer request s').2 := by
    rintro talk request s' ⟨path, call, rfl, hcall⟩ ⟨hsame, hasked⟩
    refine ⟨((hfiles.call call s').views hcall).trans hsame, ?_⟩
    exact List.forall_mem_append.mpr ⟨hasked, List.forall_mem_singleton.mpr ⟨path, call, rfl, hcall⟩⟩
  have hbefore : kept [] s := ⟨rfl, List.forall_mem_nil _⟩
  obtain ⟨⟨hsame, hasked⟩, hrest⟩ := Job.Asks.advances hasks kept hkept hbefore h
  exact ⟨hsame, hasked, fun call hcall => hrest.of_call? (Option.mem_toList.mp hcall)⟩

/-- The file of a manifest cannot be read to its end on the host, as long as its files are what they
are. -/
def Unread (host : Host σ) (files : σ → Tree) (settings : Settings) (id : String) (s : σ) : Prop :=
  ∀ u bytes, files u = files s →
    (host.answer (.file (.read (Manifest.pathIn (settings.directory id)))) u).1.reply ≠
      .ok (.ok ⟨bytes, none⟩)

theorem not_finds_of_unread (hfiles : host.HasFiles files) {id : String}
    (h : Unread host files settings id s) : ¬ Finds host settings id s m := by
  intro hfinds
  obtain ⟨talk, htalk⟩ := Job.exists_dialogue hfinds
  rw [get_eq hfinds.isName] at htalk
  obtain ⟨_, kind, u, _, -, hkind, htalk⟩ := Work.dialogue_bind_ok htalk
  obtain ⟨_, -, hkind⟩ := Work.dialogue_ofJob.mp hkind
  obtain ⟨-, -, rfl⟩ := Job.dialogue_request.mp hkind
  split at htalk
  · rw [Manifest.read, Dump.bytesOf] at htalk
    obtain ⟨_, bytes, _, _, -, hbytes, -⟩ := Work.dialogue_bind_ok htalk
    obtain ⟨_, ⟨part, failure⟩, _, _, -, hread, hall⟩ := Work.dialogue_bind_ok hbytes
    obtain ⟨hreply, -, -⟩ := Job.dialogue_request.mp (Work.dialogue_ofExcept_ok hread)
    cases failure with
    | none => exact h _ part ((hfiles.call _ s).views .kind) hreply
    | some cause =>
      obtain ⟨-, hno, -⟩ := hall
      cases hno
  · obtain ⟨-, hno, -⟩ := htalk
    cases hno

/-- To get a backup comes to something, whatever there is. -/
theorem exists_comesTo_get (t : Tree) (fails : Prop) (settings : Settings) (id : String) :
    ∃ truth, (get settings id).ComesTo t fails truth := by
  cases hid : isName id with
  | false => exact ⟨_, comesTo_get_malformed hid⟩
  | true =>
    by_cases hthere : ∃ bytes,
        t.open? (Manifest.pathIn (settings.directory id)) = .ok (.file bytes)
    · obtain ⟨bytes, hopen⟩ := hthere
      cases hsource : Text.Utf8.decode? bytes with
      | none => exact ⟨_, comesTo_get_noText hid hopen hsource⟩
      | some source => exact ⟨_, comesTo_get_source hid hopen hsource⟩
    · push Not at hthere
      exact ⟨_, comesTo_get_unknown hid hthere⟩

/-- The planning fails by what cannot be read. -/
theorem exists_fault_of_unread (hfiles : host.HasFiles files)
    (h : Unread host files settings request.id s) :
    ∃ fault, ((restorePlan settings request).run.run host s).1.result = .ok (.error fault) := by
  obtain ⟨truth, htruth⟩ := exists_comesTo_get (files s) True settings request.id
  obtain ⟨result, hresult, -⟩ := Job.Looks.run hfiles (.inl trivial) htruth (s := s) rfl
  cases result with
  | ok m => exact absurd hresult (not_finds_of_unread hfiles h)
  | error fault =>
    obtain ⟨talk, htalk⟩ := Job.exists_dialogue hresult
    rw [restorePlan_eq]
    exact ⟨fault, (Work.dialogue_bind.mpr (.inl ⟨fault, rfl, htalk⟩)).run.1⟩

/-- So it does by what is wrong with the backup, and the first thing that is wrong is reported unless
the host does not tell of it. -/
theorem Unfit.exists_fault (hfiles : host.HasFiles files) (h : Unfit (files s) settings request) :
    ∃ fault, ((restorePlan settings request).run.run host s).1.result = .ok (.error fault) ∧
      (host.Tells files (files s) → Reports (files s) settings request fault) := by
  obtain ⟨first, hfirst⟩ := h.exists_reports
  have hcomes : (restorePlan settings request).ComesTo (files s) (¬ host.Tells files (files s)) _ :=
    hfirst.comesTo
  obtain ⟨result, hresult, hcomes, -⟩ := Job.Looks.run hfiles (em _).symm hcomes rfl
  rcases hcomes with rfl | ⟨hfails, fault, rfl⟩
  · exact ⟨first, hresult, fun _ => hfirst⟩
  · exact ⟨fault, hresult, fun htells => absurd htells hfails⟩

/-- A host that tells what is there tells of no manifest that it cannot read. -/
theorem Unread.unfit (h : Unread host files settings request.id s)
    (htells : host.Tells files (files s)) : Unfit (files s) settings request := by
  refine .unknown fun bytes hopen => h s bytes rfl ?_
  rw [htells (.read _) s (.read _) rfl]
  exact congrArg Except.ok (Files.Entry.map_content_eq_ok.mpr hopen)

theorem exists_fault_of_unfit (hfiles : host.HasFiles files)
    (h : Unfit (files s) settings request ∨ Unread host files settings request.id s) :
    ∃ fault, ((restorePlan settings request).run.run host s).1.result = .ok (.error fault) ∧
      (host.Tells files (files s) → Reports (files s) settings request fault) := by
  rcases h with hunfit | hunread
  · exact hunfit.exists_fault hfiles
  · obtain ⟨fault, hfault⟩ := exists_fault_of_unread hfiles hunread
    refine ⟨fault, hfault, fun htells => ?_⟩
    obtain ⟨fault', hfault', hreports⟩ := (hunread.unfit htells).exists_fault hfiles
    cases hfault.symm.trans hfault'
    exact hreports htells

end Host

/-- If anything is wrong with the backup or with a dump to be checked, or the manifest cannot be read,
a restore fails, in whatever order the databases would have been loaded. By then nothing has been done
but to look at files: no session is acquired, no server and no program is asked for anything, and no
file is changed. Where the host tells of its files as they are, what is reported is the first thing
that is wrong. -/
theorem untouched_of_unfit {σ : Type} (host : Host σ) (files : σ → Tree)
    (hfiles : host.HasFiles files) (settings : Settings) (request : RestoreRequest) (s : σ)
    (h : Unfit (files s) settings request ∨ Unread host files settings request.id s) :
    (∀ talk calls restored s',
      Plan.Reaches host (restorePlan settings request) s talk calls restored s' →
        restored = none ∧ files s' = files s ∧ (∀ asked ∈ talk, Looks asked.request) ∧
          ∀ call ∈ calls, Looks (.file call)) ∧
    ∃ fault, (restore host settings request s).1 = .ok (.error fault) ∧
      (∀ ended s', Plan.CarriesOut host (restorePlan settings request) s ended s' →
        ended = .ok (.error fault) ∧ files s' = files s) ∧
      (host.Tells files (files s) → Reports (files s) settings request fault) := by
  obtain ⟨fault, hfault, hreports⟩ := exists_fault_of_unfit hfiles h
  have hrestore := (Plan.carriesOut_carryOut host (restorePlan settings request) s).of_failed hfault
  refine ⟨fun talk calls restored s' hreaches => ?_, fault, hrestore.1, fun ended s' hcarried => ?_,
    hreports⟩
  · obtain ⟨hnone, rest, hplan, rfl⟩ := hreaches.of_failed hfault
    exact ⟨hnone, looks_of_planning hfiles hplan⟩
  · obtain ⟨hended, rfl⟩ := hcarried.of_failed hfault
    obtain ⟨talk, htalk⟩ := Job.exists_advances hfault
    exact ⟨hended, (looks_of_planning hfiles htalk).1⟩

/-- A backup of three databases. The dump of the second has been changed, and that of the third is
gone. -/
def spoiled : Manifest :=
  { shopAs "20240301-120000" "shop.sql" with
    databases := ["a", "b", "c"]
    files := [
      ⟨"a", "a.sql", 10, 0, 0,
        some "b4e0497804e46e0a0b0b8c31975b062152d551bac49c3c2e80932567b4085dcd"⟩,
      ⟨"b", "b.sql", 10, 0, 0,
        some "a41109d24069b4822ddc5f367b25d484dc7e839bff338ce7a3e5da641caacda0"⟩,
      ⟨"c", "c.sql", 10, 0, 0, none⟩] }

def spoiledWorld : World :=
  waiting ⟨1709294400, 0⟩ ⟨[
    (["b"], .directory),
    (["b", "20240301-120000"], .directory),
    (["b", "20240301-120000", "metadata.json"], .file (Text.Utf8.encode spoiled.text)),
    (["b", "20240301-120000", "a.sql"], .file (Text.Utf8.encode "SELECT 1;\n")),
    (["b", "20240301-120000", "b.sql"], .file (Text.Utf8.encode "SELECT 3;\n"))]⟩

theorem holds_spoiled : Holds spoiledWorld.files oneByOne "20240301-120000" spoiled where
  isName := by decide
  stored := by
    refine ⟨_, spoiled.text, rfl, Text.Utf8.decode?_encode _, ?_⟩
    exact Manifest.ofText_text (by decide)

/-- The flaw of the second dump. -/
def spoiledFault : Fault :=
  .restoreOf "b" (.checksumMismatch "b/20240301-120000/b.sql"
    "a41109d24069b4822ddc5f367b25d484dc7e839bff338ce7a3e5da641caacda0"
    "fa4a71571fc2071c8ba7b9fa042ad3267b4f134515497aecc339df06ffd3725d")

theorem reports_spoiled : Reports spoiledWorld.files oneByOne restoreShop spoiledFault := by
  have hfirst : Digest.Sha256.hex (Text.Utf8.encode "SELECT 1;\n") =
      "b4e0497804e46e0a0b0b8c31975b062152d551bac49c3c2e80932567b4085dcd" := by decide +kernel
  have hsecond : Digest.Sha256.hex (Text.Utf8.encode "SELECT 3;\n") =
      "fa4a71571fc2071c8ba7b9fa042ad3267b4f134515497aecc339df06ffd3725d" := by decide +kernel
  have hfiles : chooseFiles spoiled restoreShop.databases =
      .ok ([spoiled.files[0]] ++ spoiled.files[1] :: [spoiled.files[2]]) := rfl
  refine .flawed holds_spoiled hfiles rfl ?_ ?_
  · intro other hother cause hflaw
    obtain rfl := List.mem_singleton.mp hother
    cases hflaw with
    | missing h => exact h _ rfl
    | changed h hexpected hne =>
      cases h
      cases hexpected
      exact hne hfirst
  · rw [← hsecond]
    exact .changed rfl rfl (by rw [hsecond]; decide)

/-- The second dump is reported, and none of the three databases is dropped or loaded. -/
theorem untouched_of_spoiled :
    (restore Scripted.host oneByOne restoreShop spoiledWorld).1 = .ok (.error spoiledFault) ∧
    ∀ talk calls restored w,
      Plan.Reaches Scripted.host (restorePlan oneByOne restoreShop) spoiledWorld talk calls restored
        w → restored = none ∧ w.files = spoiledWorld.files ∧ (∀ asked ∈ talk, Looks asked.request) ∧
          ∀ call ∈ calls, Looks (.file call) := by
  have hgone : spoiledWorld.files.open? (dumpPath oneByOne spoiled spoiled.files[2]) =
      .error (.os .notFound) := by decide +kernel
  have hunfit : Unfit spoiledWorld.files oneByOne restoreShop := by
    have hfiles : chooseFiles spoiled restoreShop.databases = .ok spoiled.files := rfl
    have hlast : spoiled.files[2] ∈ spoiled.files := List.getElem_mem _
    refine .flawed holds_spoiled hfiles rfl hlast (.missing fun bytes => ?_)
    rw [hgone]
    simp
  obtain ⟨hmoments, fault, hresult, -, hreports⟩ := untouched_of_unfit Scripted.host World.files
    Scripted.hasFiles_host oneByOne restoreShop spoiledWorld (.inl hunfit)
  rw [reports_spoiled.unique (hreports (Scripted.tells_host _))]
  exact ⟨hresult, hmoments⟩

end SqlBackup.Backup
