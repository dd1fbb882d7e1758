import Mathlib
import SqlBackup.Proofs.Export.Requests
import SqlBackup.Proofs.Job.Shared
import SqlBackup.Proofs.Scripted.Calls
import SqlBackup.Scripted.Host

/-!
# Hosts that keep files

The files of a host are a tree that nothing changes but calls on files. Such a call does what it
does in a tree, or it fails for a reason of its own.
-/
namespace SqlBackup

open Files (Entry)
open Files.Path (IsName join)
open Scripted (Tree Place)
open Scripted.Tree (AgreeOff LeadsTo Has)

/-- The reply to a call that fails. What a path names is then not told. -/
def Files.Call.refusal : (call : Files.Call) → IoFault → call.Reply
  | .kind _, _ => none
  | .read _, fault => .error fault
  | .size _, fault => .error fault
  | .create _, fault => .error fault
  | .append _ _, fault => .error fault
  | .sync _, fault => .error fault
  | .remove _, fault => .error fault
  | .makeDirectory _, fault => .error fault
  | .makeDirectories _, fault => .error fault
  | .removeTree _, fault => .error fault
  | .list _, fault => .error fault
  | .rename _ _, fault => .error fault

/-- The reply tells that a call failed, if only in the end. -/
inductive Files.Call.Fails : (call : Files.Call) → call.Reply → Prop
  | refused (call : Files.Call) (fault : IoFault) : Fails call (call.refusal fault)
  | broken (path : String) (bytes : List UInt8) (fault : IoFault) :
      Fails (.read path) (.ok ⟨bytes, some fault⟩)

/-- All that was read is what a file has. -/
theorem Files.Entry.map_content_eq_ok {own : Except IoFault Entry} {bytes : List UInt8} :
    own.map Entry.content = .ok ⟨bytes, none⟩ ↔ own = .ok (.file bytes) := by
  rcases own with fault | _ | _ <;> simp [Except.map, Entry.content]

/-- What a tree can answer to a call, and what it is then. -/
inductive Scripted.Tree.Answers (t : Tree) :
    (call : Files.Call) → Except String call.Reply → Tree → Prop
  | done (call : Files.Call) : Answers t call (.ok (t.call call).1) (t.call call).2
  /-- A call can fail without an effect. That is not expected of the removal of a directory. -/
  | refused (call : Files.Call) (fault : IoFault) (h : ∀ path, call ≠ .removeTree path) :
      Answers t call (.ok (call.refusal fault)) t
  /-- Of the bytes of a file some may have been read before reading fails. -/
  | broken (path : String) {part bytes : List UInt8} (fault : IoFault)
      (hfile : t.open? path = .ok (.file bytes)) (h : part <+: bytes) :
      Answers t (.read path) (.ok (.ok ⟨part, some fault⟩)) t
  /-- Of the bytes to append some may have been written before the call fails. -/
  | cut (path : String) {part bytes : List UInt8} (fault : IoFault) (h : part <+: bytes) :
      Answers t (.append path bytes) (.ok (.error fault)) (t.append path part).2
  /-- Of the directories to make some may have been made before the call fails. -/
  | halted (path : String) {names : List String} (fault : IoFault)
      (h : names <+: Files.Path.components path) :
      Answers t (.makeDirectories path) (.ok (.error fault))
        (t.makePath (Tree.origin path) names).2

/-- The files of a host are this tree. -/
structure Host.HasFiles {σ : Type} (host : Host σ) (files : σ → Tree) : Prop where
  silent : ∀ request s, (∀ call, request ≠ .file call) →
    files (host.answer request s).2 = files s
  call : ∀ call s, (files s).Answers call (host.answer (.file call) s).1.reply
    (files (host.answer (.file call) s).2)

theorem Scripted.hasFiles_host : Scripted.host.HasFiles Scripted.World.files where
  silent request s h := by
    cases request with
    | file call => exact absurd rfl (h call)
    | _ => rfl
  call call _ := .done call

namespace Scripted.Tree

variable {t u : Tree} {place : Place} {path source target directory name : String}
  {call : Files.Call} {reply : Except String call.Reply}

theorem Answers.agreeOff (h : t.Answers call reply u) (hcall : call.IsOn path)
    (hplace : t.LeadsTo path place) : AgreeOff place t u := by
  cases h with
  | done => exact agreeOff_call hcall hplace
  | refused => exact AgreeOff.refl place t
  | broken => exact AgreeOff.refl place t
  | cut _ _ _ =>
    cases hcall
    exact agreeOff_call (.append _) hplace
  | halted => cases hcall

/-- A reply that tells of no failure is that of the tree. -/
theorem Answers.eq_call {value : call.Reply} (h : t.Answers call (.ok value) u)
    (hvalue : ¬ call.Fails value) : t.call call = (value, u) := by
  generalize hreply : (Except.ok value : Except String call.Reply) = reply at h
  cases h with
  | done =>
    cases hreply
    rfl
  | refused _ fault _ =>
    cases hreply
    exact absurd (.refused _ fault) hvalue
  | broken _ fault =>
    cases hreply
    exact absurd (.broken _ _ fault) hvalue
  | cut _ fault _ =>
    cases hreply
    exact absurd (.refused _ fault) hvalue
  | halted _ fault _ =>
    cases hreply
    exact absurd (.refused _ fault) hvalue

/-- To make sure of a file changes nothing. -/
theorem Answers.sync {reply : Except String (Files.Call.Reply (.sync path))}
    (h : t.Answers (.sync path) reply u) : u = t := by
  cases h <;> rfl

/-- A file that cannot be given another name stays what it is. -/
theorem Answers.rename_error {fault : IoFault}
    (h : t.Answers (.rename source target) (.ok (.error fault)) u) : u = t := by
  generalize hreply : (Except.ok (.error fault) :
    Except String (Files.Call.Reply (.rename source target))) = reply at h
  cases h with
  | done =>
    obtain hanswer := Except.ok.inj hreply
    exact rename_eq_error (Prod.ext hanswer.symm rfl)
  | refused => rfl

/-! ### A new directory -/

/-- A path leads to a place where nothing is. -/
structure Fresh (t : Tree) (directory : String) (place : Place) : Prop where
  resolves : t.resolve directory = .ok place
  free : t.at? place = none

/-- The tree has become another by making a directory, and by changes below that. -/
structure Inside (t : Tree) (place : Place) (u : Tree) : Prop where
  agree : AgreeOff place t u
  isThere : u.at? place = some .directory

variable {v : Tree}

theorem Fresh.closed (h : t.Fresh directory place) : t.Closed place := closed_of_free h.free

theorem Fresh.inside_put (h : t.Fresh directory place) :
    t.Inside place (t.put place .directory) :=
  ⟨agreeOff_put place t _, at?_put_self (ne_nil_of_free h.free)⟩

theorem Fresh.has (h : t.Fresh directory place) (hin : t.Inside place u) :
    u.Has directory place :=
  ⟨(resolve_of_agreeOff hin.agree h.closed h.resolves).1, hin.isThere⟩

theorem Inside.of_agreeOff (hin : t.Inside place u) (h : AgreeOff (place ++ [name]) u v) :
    t.Inside place v := by
  refine ⟨hin.agree.trans h.above, ?_⟩
  rw [h place (fun hbelow => by simpa using hbelow.length_le)]
  exact hin.isThere

/-- Once the directory is removed nothing tells that it was there. -/
theorem Fresh.alike_prune (h : t.Fresh directory place) (hin : t.Inside place u) :
    Alike t (u.prune place) :=
  alike_of_agreeOff (hin.agree.trans (agreeOff_prune place u)) h.free
    (at?_prune_below List.prefix_rfl (ne_nil_of_free h.free))

end Scripted.Tree

/-! ### Files of a new directory -/

section Share

open Scripted.Tree (Fresh Inside)

variable {σ : Type} {host : Host σ} {files : σ → Tree} {t : Tree} {place : Place}
  {directory name : String} {own : Except IoFault Entry}

/-- The share of a job that works on one file of a new directory. -/
def fileShare (files : σ → Tree) (t : Tree) (place : Place) (directory name : String) :
    Share σ (Except IoFault Entry) where
  kept s := t.Inside place (files s)
  allowed s s' := AgreeOff (place ++ [name]) (files s) (files s')
  own s := (files s).open? (join directory name)

theorem works_silent (hfiles : host.HasFiles files) {request : Request}
    (h : ∀ call, request ≠ .file call) :
    request.Works host (fileShare files t place directory name) own fun _ own' => own' = own := by
  intro s hkept hown
  have hsame := hfiles.silent request s h
  simp only [fileShare, hsame] at hkept hown ⊢
  exact ⟨hkept, AgreeOff.refl _ _, fun _ _ => hown⟩

variable (hfiles : host.HasFiles files) (hfresh : t.Fresh directory place)
  (hname : IsName name)
include hfiles hfresh hname

/-- No request on the file changes more than the file. -/
theorem works_call {call : Files.Call} (h : call.IsOn (join directory name)) :
    (Request.file call).Works host (fileShare files t place directory name) own fun _ _ =>
      True := by
  intro s hkept _
  have hagree := (hfiles.call call s).agreeOff h
    ((hfresh.has hkept).leadsTo hname)
  exact ⟨hkept.of_agreeOff hagree, hagree, fun _ _ => trivial⟩

theorem works_isOn {request : Request} (h : request.IsOn (join directory name)) :
    request.Works host (fileShare files t place directory name) own fun _ _ => True := by
  cases request with
  | file call => exact works_call hfiles hfresh hname h
  | acquire => exact (works_silent hfiles (by simp)).mono fun _ _ _ => trivial
  | session session call => exact (works_silent hfiles (by simp)).mono fun _ _ _ => trivial
  | program call => exact (works_silent hfiles (by simp)).mono fun _ _ _ => trivial
  | now => exact (works_silent hfiles (by simp)).mono fun _ _ _ => trivial
  | tell event => exact (works_silent hfiles (by simp)).mono fun _ _ _ => trivial
  | pause length => exact (works_silent hfiles (by simp)).mono fun _ _ _ => trivial

theorem works_size :
    (Request.file (.size (join directory name))).Works host
      (fileShare files t place directory name) own fun reply own' =>
        ∀ n, reply = .ok n → own'.map Tree.size = .ok n := by
  intro s hkept hown
  obtain ⟨hkept', hallowed, -⟩ :=
    works_call hfiles hfresh hname .size s hkept hown
  refine ⟨hkept', hallowed, fun reply hreply n hn => ?_⟩
  have hanswer := hfiles.call (.size (join directory name)) s
  rw [hreply, hn] at hanswer
  have hcall := hanswer.eq_call nofun
  obtain ⟨hsize, hsame⟩ := Prod.mk.inj hcall
  simp only [fileShare, ← hsame]
  exact hsize

theorem works_read :
    (Request.file (.read (join directory name))).Works host
      (fileShare files t place directory name) own fun reply own' =>
        ∀ bytes, reply = .ok ⟨bytes, none⟩ → own' = own ∧ own = .ok (.file bytes) := by
  intro s hkept hown
  obtain ⟨hkept', hallowed, -⟩ :=
    works_call hfiles hfresh hname .read s hkept hown
  refine ⟨hkept', hallowed, fun reply hreply bytes hbytes => ?_⟩
  have hanswer := hfiles.call (.read (join directory name)) s
  rw [hreply, hbytes] at hanswer
  have hcall := hanswer.eq_call nofun
  obtain ⟨hopen, hsame⟩ := Prod.mk.inj hcall
  refine ⟨?_, hown.symm.trans (Entry.map_content_eq_ok.mp hopen)⟩
  rw [← hown]
  simp only [fileShare, ← hsame]

end Share

end SqlBackup
