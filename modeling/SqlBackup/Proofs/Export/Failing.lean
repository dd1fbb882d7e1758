import Mathlib
import SqlBackup.Proofs.Export.ReadBack
import SqlBackup.Proofs.Export.Requests
import SqlBackup.Proofs.Files.Host
import SqlBackup.Proofs.Job.Dialogue

/-!
# What a failed export leaves

All that an export does to files it does at the path of its dump. After a failure it removes what is
there, whether or not that is what it has written: a file that was there before is gone even if the
export failed before it opened the dump.
-/
namespace SqlBackup

open Scripted (Tree Place)
open Scripted.Tree (AgreeOff Closed SameBut edit_eq_ok edit_eq_error)

/-- The host does with its files what it is told, and no call on them fails for a reason of its
own. -/
def Host.Obeys {σ : Type} (host : Host σ) (files : σ → Tree) : Prop :=
  ∀ call s, (host.answer (.file call) s).1.reply = .ok ((files s).call call).1 ∧
    files (host.answer (.file call) s).2 = ((files s).call call).2

theorem Scripted.obeys_host : Scripted.host.Obeys Scripted.World.files := fun _ _ => ⟨rfl, rfl⟩

/-! ### Changes at one path -/

namespace Scripted.Tree

variable {t u v : Tree} {path : String} {place : Place} {call : Files.Call}
  {reply : Except String call.Reply}

/-- A call on a path has done nothing, or what some call on the path does. -/
theorem Answers.eq_or_exists_call (h : t.Answers call reply u) (hcall : call.IsOn path) :
    u = t ∨ ∃ call' : Files.Call, call'.IsOn path ∧ u = (t.call call').2 := by
  cases h with
  | done => exact .inr ⟨call, hcall, rfl⟩
  | refused => exact .inl rfl
  | broken => exact .inl rfl
  | @cut _ part =>
    cases hcall
    exact .inr ⟨_, .append part, rfl⟩
  | halted => cases hcall

/-- The tree has changed at most at a file that this path names. -/
def ChangedAt (path : String) (t u : Tree) : Prop :=
  u = t ∨ ∃ place, t.resolve path = .ok place ∧ t.Closed place ∧ u.Closed place ∧
    AgreeOff place t u

theorem ChangedAt.sameBut (h : ChangedAt path t u) : SameBut path t u := by
  rcases h with rfl | ⟨place, hplace, hclosed, hclosed', hagree⟩
  · exact SameBut.refl path u
  · exact sameBut_of_agreeOff hplace hagree hclosed hclosed'

theorem ChangedAt.call_isOn (h : ChangedAt path t u) (hcall : call.IsOn path) :
    ChangedAt path t (u.call call).2 := by
  by_cases hfile : ∃ place, t.resolve path = .ok place ∧ t.Closed place
  · obtain ⟨place, hplace, hclosed⟩ := hfile
    have hagree : AgreeOff place t u ∧ u.Closed place := by
      rcases h with rfl | ⟨other, hother, -, hclosed', hagree⟩
      · exact ⟨AgreeOff.refl place u, hclosed⟩
      · obtain rfl := Except.ok.inj (hplace.symm.trans hother)
        exact ⟨hagree, hclosed'⟩
    obtain ⟨hplace', -⟩ := resolve_of_agreeOff hagree.1 hclosed hplace
    have hleads : u.LeadsTo path place := fun p hp => Except.ok.inj (hp.symm.trans hplace')
    exact .inr ⟨place, hplace, hclosed, closed_call hcall hplace' hagree.2,
      hagree.1.trans (agreeOff_call hcall hleads)⟩
  · have hsame : u = t := by
      rcases h with rfl | ⟨place, hplace, hclosed, -⟩
      · rfl
      · exact absurd ⟨place, hplace, hclosed⟩ hfile
    subst hsame
    refine .inl (call_eq_of_not_closed hcall fun p hp => ?_)
    by_contra hclosed
    exact hfile ⟨p, hp, hclosed⟩

theorem ChangedAt.answers (h : ChangedAt path t u) (hcall : call.IsOn path)
    (hanswers : u.Answers call reply v) : ChangedAt path t v := by
  rcases hanswers.eq_or_exists_call hcall with rfl | ⟨call', hcall', rfl⟩
  · exact h
  · exact h.call_isOn hcall'

/-- The tree has changed at most where the path leads, and there a file is. -/
def Standing (path : String) (t u : Tree) : Prop :=
  ∃ place bytes, t.resolve path = .ok place ∧ t.Closed place ∧ AgreeOff place t u ∧
    u.at? place = some (.file bytes)

theorem Standing.resolve (h : Standing path t u) :
    ∃ place bytes, u.resolve path = .ok place ∧ u.at? place = some (.file bytes) := by
  obtain ⟨place, bytes, hplace, hclosed, hagree, hfile⟩ := h
  exact ⟨place, bytes, (resolve_of_agreeOff hagree hclosed hplace).1, hfile⟩

theorem standing_of_create (h : t.create path = (.ok (), u)) : Standing path t u := by
  obtain ⟨place, hplace, hchange⟩ := edit_eq_ok h
  split at hchange
  · cases hchange
  · next hclosed =>
    have hclosed : t.Closed place := hclosed
    cases hchange
    exact ⟨place, [], hplace, hclosed, agreeOff_put place t _, at?_put_self hclosed.ne_nil⟩

theorem Standing.append (h : Standing path t u) (bytes : List UInt8) :
    Standing path t (u.append path bytes).2 := by
  obtain ⟨place, old, hplace, hclosed, hagree, hfile⟩ := h
  obtain ⟨hplace', -⟩ := resolve_of_agreeOff hagree hclosed hplace
  have happend : u.append path bytes = (.ok (), u.put place (.file (old ++ bytes))) := by
    simp only [Tree.append, edit, hplace', hfile]
  rw [happend]
  exact ⟨place, old ++ bytes, hplace, hclosed, hagree.trans (agreeOff_put place u _),
    at?_put_self hclosed.ne_nil⟩

/-- Where a path names nothing, there is nothing to remove. -/
theorem remove_of_error {fault : IoFault} (h : t.open? path = .error fault) :
    (t.remove path).2 = t := by
  refine edit_keeps (· = t) rfl fun p v hp hv => ?_
  cases hentry : t.at? p with
  | none =>
    rw [hentry] at hv
    cases hv
  | some entry =>
    rw [open?_eq_ok.mpr ⟨p, hp, hentry⟩] at h
    cases h

theorem remove_of_no_file (h : ∀ bytes, t.open? path ≠ .ok (.file bytes)) :
    (t.remove path).2 = t := by
  refine edit_keeps (· = t) rfl fun p v hp hv => ?_
  split at hv
  · cases hv
  · cases hv
  · next bytes hfile => exact absurd (open?_eq_ok.mpr ⟨p, hp, hfile⟩) (h bytes)

/-- Where a file was removed, the path names nothing. -/
theorem open?_remove {bytes : List UInt8} (hplace : t.resolve path = .ok place)
    (hfile : t.at? place = some (.file bytes)) (entry : Files.Entry) :
    (t.remove path).2.open? path ≠ .ok entry := by
  have hclosed := closed_of_file hfile
  have hremove : t.remove path = (.ok (), t.prune place) := by
    simp only [remove, edit, hplace, hfile]
  obtain ⟨hplace', -⟩ := resolve_of_agreeOff (agreeOff_prune place t) hclosed hplace
  have hgone : (t.prune place).at? place = none := at?_prune_below List.prefix_rfl hclosed.ne_nil
  rw [hremove, open?, hplace']
  simp [hgone]

/-- After a removal no file is there, whether or not one was there before. -/
theorem no_file_of_remove (t : Tree) (path : String) (bytes : List UInt8) :
    (t.remove path).2.open? path ≠ .ok (.file bytes) := by
  by_cases hfile : ∃ old, t.open? path = .ok (.file old)
  · obtain ⟨old, hold⟩ := hfile
    obtain ⟨place, hplace, hentry⟩ := open?_eq_ok.mp hold
    exact open?_remove hplace hentry _
  · push Not at hfile
    rw [remove_of_no_file hfile]
    exact hfile bytes

end Scripted.Tree

namespace Export

open Scripted.Tree (ChangedAt Standing)

variable {σ α β : Type} {host : Host σ} {files : σ → Tree} {s s' : σ} {t u : Tree} {path : String}
  {talk : List Exchange}

/-- The file at the path was made. -/
def Opened (path : String) (talk : List Exchange) : Prop :=
  ⟨.file (.create path), Except.ok ()⟩ ∈ talk

/-- What has become of the file at the path: it was not opened, and the part failed, or it stands. -/
inductive Outcome (path : String) (t : Tree) (talk : List Exchange) (u : Tree) :
    Except Fault α → Prop
  | unopened {fault : Fault} (hno : ¬ Opened path talk) (hsame : u = t) :
      Outcome path t talk u (.error fault)
  | opened {result : Except Fault α} (hyes : Opened path talk) (hstanding : Standing path t u) :
      Outcome path t talk u result

/-- Whatever a host answers to the work, the file at the path is opened and stands, or the work has
failed before and no file has changed. -/
def Writes (host : Host σ) (files : σ → Tree) (path : String) (work : Work α) : Prop :=
  ∀ s talk result s', work.run.Dialogue host s talk result s' →
    Outcome path (files s) talk (files s') result

theorem opened_append {first second : List Exchange} :
    Opened path (first ++ second) ↔ Opened path first ∨ Opened path second := by
  simp only [Opened, List.mem_append]

section Parts

variable (hfiles : host.HasFiles files)
include hfiles

/-- Where all files are left alone, none is opened. -/
theorem files_of_silent (path : String) {job : Job α} {wanted : α → Prop} {a : α}
    (h : job.Asks Request.IsSilent wanted) (htalk : job.Dialogue host s talk a s') :
    files s' = files s ∧ ¬ Opened path talk := by
  let same : σ → Prop := fun s' => files s' = files s
  have hsame : ∀ request s', request.IsSilent → same s' → same (host.answer request s').2 :=
    fun request s' hrequest hs' => (hfiles.silent request s' hrequest).trans hs'
  obtain ⟨hkept, hasked⟩ := h.dialogue hsame rfl htalk
  exact ⟨hkept, fun hopened => hasked _ hopened _ rfl⟩

theorem Writes.after_silent {work : Work α} {f : α → Work β}
    (hwork : work.Asks Request.IsSilent fun _ => True) (hf : ∀ a, Writes host files path (f a)) :
    Writes host files path (work >>= f) := by
  intro s talk result s' h
  rcases Work.dialogue_bind.mp h with ⟨fault, rfl, hfirst⟩ |
    ⟨first, a, u, second, rfl, hfirst, hsecond⟩
  · obtain ⟨hsame, hno⟩ := files_of_silent hfiles path hwork hfirst
    exact .unopened hno hsame
  · obtain ⟨hsame, hno⟩ := files_of_silent hfiles path hwork hfirst
    cases hf a u second result s' hsecond with
    | unopened hno' hsame' =>
      exact .unopened (fun h => (opened_append.mp h).elim hno hno') (hsame'.trans hsame)
    | opened hyes hstanding =>
      exact .opened (opened_append.mpr (.inr hyes)) (hsame ▸ hstanding)

theorem Writes.before_silent {work : Work α} {later : Job β} (hwork : Writes host files path work)
    (hlater : later.Asks Request.IsSilent fun _ => True) :
    Writes host files path (work.outcome >>= fun result =>
      Work.ofJob later >>= fun _ => Work.ofResult result) := by
  intro s talk result s' h
  obtain ⟨first, result', u, _, rfl, hfirst, h⟩ := Work.dialogue_ofJob_bind.mp h
  obtain ⟨second, _, v, _, rfl, hsecond, rfl, rfl, rfl⟩ := Work.dialogue_ofJob_bind.mp h
  obtain ⟨hsame, hno⟩ := files_of_silent hfiles path hlater hsecond
  rw [List.append_nil, hsame]
  cases hwork s first result u hfirst with
  | unopened hno' hsame' =>
    exact .unopened (fun h => (opened_append.mp h).elim hno' hno) hsame'
  | opened hyes hstanding => exact .opened (opened_append.mpr (.inl hyes)) hstanding

/-- Where only one path is changed, all else stays as it is. -/
theorem sameBut_of_isOn {job : Job α} {wanted : α → Prop} {a : α}
    (h : job.Asks (Request.IsOn path) wanted) (htalk : job.Dialogue host s talk a s') :
    SameBut path (files s) (files s') := by
  let changed : σ → Prop := fun s' => ChangedAt path (files s) (files s')
  have hkept : ∀ request s', request.IsOn path → changed s' →
      changed (host.answer request s').2 := by
    intro request s' hrequest hs'
    cases request with
    | file call => exact hs'.answers hrequest (hfiles.call call s')
    | _ =>
      show ChangedAt path (files s) (files _)
      rw [hfiles.silent _ s' (by simp)]
      exact hs'
  exact (h.dialogue hkept (.inl rfl) htalk).1.sameBut

variable (hobeys : host.Obeys files)
include hobeys

/-- What only adds to a file leaves it standing. -/
theorem standing_of_adds {job : Job α} {wanted : α → Prop} {a : α}
    (h : job.Asks (Request.AddsTo path) wanted) (htalk : job.Dialogue host s talk a s')
    (hs : Standing path t (files s)) : Standing path t (files s') := by
  let stands : σ → Prop := fun s' => Standing path t (files s')
  have hkept : ∀ request s', request.AddsTo path → stands s' →
      stands (host.answer request s').2 := by
    intro request s' hrequest hs'
    cases request with
    | file call =>
      show Standing path t (files _)
      rw [(hobeys call s').2]
      rcases hrequest with rfl | ⟨bytes, rfl⟩
      · exact hs'
      · exact hs'.append bytes
    | _ =>
      show Standing path t (files _)
      rw [hfiles.silent _ s' (by simp)]
      exact hs'
  exact (h.dialogue hkept hs htalk).1

/-- Work that makes the file first and then adds to it. -/
theorem writes_creation {work : Work α} (hwork : work.Asks (Request.AddsTo path) fun _ => True) :
    Writes host files path
      (Work.onPath path (Job.file (.create path)) >>= fun _ => work) := by
  have hanswer (s : σ) := hobeys (.create path) s
  intro s talk result s' h
  rcases Work.dialogue_bind.mp h with ⟨fault, rfl, hfirst⟩ |
    ⟨first, _, u, second, rfl, hfirst, hsecond⟩
  · obtain ⟨said, reply, v, _, rfl, hsaid, rfl, hreply, rfl⟩ := Job.dialogue_bind.mp hfirst
    obtain ⟨hsaying, rfl, rfl⟩ := Job.dialogue_request.mp hsaid
    cases reply with
    | ok _ => cases hreply
    | error cause =>
      have hrefused : (files s).create path = (.error cause, ((files s).create path).2) :=
        Prod.ext (Except.ok.inj ((hanswer s).1.symm.trans hsaying)) rfl
      refine .unopened (by simp [Opened]) ?_
      rw [(hanswer s).2]
      exact edit_eq_error hrefused
  · obtain ⟨hsaying, rfl, rfl⟩ := Job.dialogue_request.mp (Work.dialogue_ofExcept_ok hfirst)
    have hmade : (files s).create path = (.ok (), ((files s).create path).2) :=
      Prod.ext (Except.ok.inj ((hanswer s).1.symm.trans hsaying)) rfl
    have hstanding : Standing path (files s) (files (host.answer (.file (.create path)) s).2) := by
      rw [(hanswer s).2]
      exact Scripted.Tree.standing_of_create hmade
    exact .opened List.mem_cons_self
      (standing_of_adds hfiles hobeys hwork hsecond hstanding)

theorem writes_writeDump (session : Session) (options : Options) :
    Writes host files options.path (writeDump session options) := by
  rw [writeDump_eq]
  refine Writes.after_silent hfiles
    (asks_prepareDump (fun _ => Request.isSilent_session _ _) options) fun known => ?_
  exact writes_creation hfiles hobeys
    ((asks_behindCreation session options known.1 known.2).widen fun _ h => h.addsTo)

theorem writes_writeConsistently (session : Session) (options : Options) :
    Writes host files options.path (writeConsistently session options) := by
  have hsilent (sql : String) : (Request.session session (.execute sql)).IsSilent :=
    Request.isSilent_session _ _
  have hdump := writes_writeDump hfiles hobeys session options
  rw [writeConsistently]
  refine Writes.after_silent hfiles (Work.asks_call (Request.isSilent_session _ _)) fun _ => ?_
  split
  · refine Writes.after_silent hfiles (asks_executeAll fun sql _ => hsilent sql) fun _ => ?_
    exact hdump.before_silent hfiles (asks_attemptAll fun sql _ => hsilent sql)
  · exact hdump

omit hfiles in
/-- What is at the path is removed, if it is a file. -/
theorem files_of_discard (h : (discard path).Dialogue host s talk () s') :
    files s' = ((files s).remove path).2 ∧ ¬ Opened path talk := by
  obtain ⟨kind, rest, hkind, rfl, h⟩ := h
  obtain ⟨hreply, hsame⟩ := hobeys (.kind path) s
  have hsame : files (host.answer (.file (.kind path)) s).2 = files s := hsame
  have hkind : kind = ((files s).open? path).toOption.map Files.Entry.kind :=
    Except.ok.inj (hkind.symm.trans hreply)
  cases kind with
  | none =>
    obtain ⟨rfl, -, rfl⟩ := h
    refine ⟨?_, by simp [Opened]⟩
    cases hopen : (files s).open? path with
    | error fault => rw [hsame, Scripted.Tree.remove_of_error hopen]
    | ok entry =>
      rw [hopen] at hkind
      cases hkind
  | some kind =>
    obtain ⟨reply, rest, -, rfl, rfl, -, rfl⟩ := h
    refine ⟨?_, by simp [Opened]⟩
    rw [(hobeys (.remove path) _).2, hsame]
    rfl

end Parts

/-- The size of a file that stands is told. -/
theorem not_dialogue_size {fault : Fault} (hobeys : host.Obeys files)
    (hstanding : Standing path t (files s)) :
    ¬ (Work.onPath path (Job.file (.size path))).run.Dialogue host s talk (.error fault) s' := by
  intro h
  obtain ⟨place, bytes, hplace, hfile⟩ := hstanding.resolve
  have hopen : (files s).open? path = .ok (.file bytes) :=
    Scripted.Tree.open?_eq_ok.mpr ⟨place, hplace, hfile⟩
  obtain ⟨_, reply, _, _, rfl, hsaid, rfl, hreply, rfl⟩ := Job.dialogue_bind.mp h
  obtain ⟨hsaying, -, -⟩ := Job.dialogue_request.mp hsaid
  have hsize : reply = ((files s).open? path).map Tree.size :=
    Except.ok.inj (hsaying.symm.trans (hobeys (.size path) s).1)
  rw [hsize, hopen] at hreply
  cases hreply

/-- What there is when the work has been followed by the removal of what is at the path. -/
theorem Outcome.removed {result : Except Fault α} (h : Outcome path t talk u result) :
    (∀ bytes, (u.remove path).2.open? path ≠ .ok (.file bytes)) ∧
    (Opened path talk → ∀ entry, (u.remove path).2.open? path ≠ .ok entry) ∧
    (¬ Opened path talk → (∀ bytes, t.open? path ≠ .ok (.file bytes)) → (u.remove path).2 = t) := by
  cases h with
  | unopened hno hsame =>
    refine ⟨Scripted.Tree.no_file_of_remove _ _, fun hyes => absurd hyes hno, fun _ hnone => ?_⟩
    rw [hsame]
    exact Scripted.Tree.remove_of_no_file hnone
  | opened hyes hstanding =>
    obtain ⟨place, bytes, hplace, hfile⟩ := hstanding.resolve
    have hgone := Scripted.Tree.open?_remove hplace hfile
    exact ⟨fun bytes => hgone (.file bytes), fun _ => hgone, fun hno => absurd hyes hno⟩

/-- An export that fails has changed nothing but what is at the path of its dump. As long as no call
on files fails for a reason of its own, no file is there afterwards, and nothing at all if the dump
was opened. If it was not opened, a file that was there before is gone too, and without such a file
nothing has changed. -/
theorem discarded_of_error {σ : Type} (host : Host σ) (files : σ → Tree)
    (hfiles : host.HasFiles files) (session : Session) (options : Options) (s s' : σ)
    (talk : List Exchange) (fault : Fault)
    (h : (database session options).run.Dialogue host s talk (.error fault) s') :
    SameBut options.path (files s) (files s') ∧
    (host.Obeys files →
      (∀ bytes, (files s').open? options.path ≠ .ok (.file bytes)) ∧
      (Opened options.path talk → ∀ entry, (files s').open? options.path ≠ .ok entry) ∧
      (¬ Opened options.path talk → (∀ bytes, (files s).open? options.path ≠ .ok (.file bytes)) →
        files s' = files s)) := by
  refine ⟨sameBut_of_isOn hfiles (asks_database session options) h, fun hobeys => ?_⟩
  rw [database] at h
  obtain ⟨first, result, u, second, rfl, hfirst, hsecond⟩ := Work.dialogue_ofJob_bind.mp h
  have houtcome := writes_writeConsistently hfiles hobeys session options s first result u hfirst
  cases result with
  | ok stats =>
    -- The dump stands, so its size is told and the export does not fail.
    cases houtcome with
    | opened hyes hstanding =>
      rcases Work.dialogue_bind.mp hsecond with ⟨_, -, hsize⟩ | ⟨_, _, _, _, -, -, -, hno, -⟩
      · exact absurd hsize (not_dialogue_size hobeys hstanding)
      · cases hno
  | error fault' =>
    obtain ⟨third, _, v, _, rfl, hdiscard, rfl, -, rfl⟩ := Work.dialogue_ofJob_bind.mp hsecond
    obtain ⟨hremoved, hno⟩ := files_of_discard hobeys hdiscard
    have hopened : Opened options.path (first ++ (third ++ [])) ↔ Opened options.path first := by
      rw [List.append_nil, opened_append, or_iff_left hno]
    rw [hremoved, hopened]
    exact houtcome.removed

/-- The world of the notebook with a file where its dump goes and one beside it, and a server that
refuses or does not know these things. -/
def failingWorld (rules : List Scripted.Rule) (unknown : String) : Scripted.World :=
  { notesWorld with
    server := { notesWorld.server with
      rules, entries := notesEntries.filter (·.sql != unknown) }
    files := ⟨[(["d.sql"], .file [1, 2, 3]), (["e.sql"], .file [4])]⟩ }

/-- The server says nothing of how the table is created, which is asked for when the dump is open. -/
def unanswered : Scripted.World := failingWorld [] (Sql.showCreateTable "no;tes")

/-- The server does not let the session into the database. -/
def refused : Scripted.World :=
  failingWorld [⟨some "use", "", 0, none, .refuse (.rejected "no")⟩] ""

/-- The dump is gone, and the file beside it stays. -/
theorem discarded_of_unanswered : ∃ talk fault w,
    (database notesSession notesOptions).run.Dialogue Scripted.host unanswered talk (.error fault)
      w ∧
    SameBut "d.sql" unanswered.files w.files ∧
    ∀ bytes, w.files.open? "d.sql" ≠ .ok (.file bytes) := by
  have hresult : ((database notesSession notesOptions).run.run Scripted.host unanswered).1.result =
      .ok (.error (.session (.unexpectedResult (Sql.showCreateTable "no;tes")
        "no creation statement returned"))) := by decide +kernel
  obtain ⟨talk, htalk⟩ := Job.exists_dialogue hresult
  obtain ⟨hsame, hgone⟩ := discarded_of_error Scripted.host Scripted.World.files
    Scripted.hasFiles_host notesSession notesOptions unanswered _ talk _ htalk
  exact ⟨talk, _, _, htalk, hsame, (hgone Scripted.obeys_host).1⟩

/-- A file that the export has not written is gone, although the export failed with its first call
and opened nothing. -/
theorem lost_of_refused :
    refused.files.open? "d.sql" = .ok (.file [1, 2, 3]) ∧
    ∃ talk w, (database notesSession notesOptions).run.Dialogue Scripted.host refused talk
        (.error (.session (.rejected "no"))) w ∧
      ¬ Opened "d.sql" talk ∧ w.files.open? "d.sql" = .error (.os .notFound) := by
  refine ⟨by decide +kernel, _, _, ⟨.error (.rejected "no"), _, by decide +kernel, rfl, some .file, _,
    by decide +kernel, rfl, .ok (), _, by decide +kernel, rfl, rfl, rfl, rfl⟩, ?_, by decide +kernel⟩
  simp [Opened]

end Export

end SqlBackup
