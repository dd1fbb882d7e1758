import Mathlib
import SqlBackup.Proofs.Dump.Requests
import SqlBackup.Proofs.Files.Torn
import SqlBackup.Proofs.Job.Dialogue

/-!
# Looking at files

A job that does nothing but look at files leaves them as they are, and it comes to what they tell. A
host tells what is there, or else that the call failed. What depends on a call that failed fails too,
so that a job which fails by what is there fails on every host.
-/
namespace SqlBackup

open Files (Entry)
open Scripted (Tree)

/-- A call that looks at files and changes none. -/
inductive Files.Call.Looks : Files.Call → Prop
  | kind (path : String) : Looks (.kind path)
  | read (path : String) : Looks (.read path)
  | list (path : String) : Looks (.list path)

/-- Where its files are this tree, a host that is asked what is in it tells that. -/
def Host.Tells {σ : Type} (host : Host σ) (files : σ → Tree) (t : Tree) : Prop :=
  ∀ (call : Files.Call) (s : σ), call.Looks → files s = t →
    (host.answer (.file call) s).1.reply = .ok (t.call call).1

theorem Scripted.tells_host (t : Tree) : Scripted.host.Tells Scripted.World.files t := by
  rintro call s - rfl
  rfl

theorem Scripted.Tree.Answers.looks {t u : Tree} {call : Files.Call}
    {reply : Except String call.Reply} (h : t.Answers call reply u) (hcall : call.Looks) :
    u = t := by
  cases h with
  | done => cases hcall <;> rfl
  | refused => rfl
  | broken => rfl
  | cut => cases hcall
  | halted => cases hcall

/-- The files of a host stay as they are where it is only asked about them. -/
def Host.Still {σ : Type} (host : Host σ) (files : σ → Tree) : Prop :=
  ∀ (call : Files.Call) (s : σ), call.Looks → files (host.answer (.file call) s).2 = files s

theorem Host.HasFiles.still {σ : Type} {host : Host σ} {files : σ → Tree}
    (hfiles : host.HasFiles files) : host.Still files :=
  fun call s hcall => (hfiles.call call s).looks hcall

/-- To look at a file changes nothing. -/
theorem Scripted.Tree.Answers.views {t u : Tree} {path : String} {call : Files.Call}
    {reply : Except String call.Reply} (h : t.Answers call reply u) (hcall : call.Views path) :
    u = t := by
  cases h with
  | done => cases hcall <;> rfl
  | refused => rfl
  | broken => rfl
  | cut => cases hcall
  | halted => cases hcall

/-- What is told of this tree: what is there or, where calls may fail, that the call did. -/
def Files.Call.Told (t : Tree) (fails : Prop) (call : Files.Call) (reply : call.Reply) : Prop :=
  reply = (t.call call).1 ∨ fails ∧ ∃ u, t.Answers call (.ok reply) u

variable {σ α β : Type} {host : Host σ} {files : σ → Tree} {s s' : σ} {t : Tree} {fails : Prop}

/-- The job does nothing but look at files that are this tree, and it ends, and with a value that is
as wanted, whatever it is told of the tree. -/
def Job.Looks (t : Tree) (fails : Prop) : Job α → (α → Prop) → Prop
  | .done a, wanted => wanted a
  | .ask (.file call) next, wanted =>
      call.Looks ∧ ∀ reply, call.Told t fails reply → (next reply).Looks t fails wanted
  | _, _ => False

namespace Job

variable {job : Job α} {f : α → Job β} {wanted : α → Prop}

theorem looks_bind {wanted : β → Prop} : (job.bind f).Looks t fails wanted ↔
    job.Looks t fails fun a => (f a).Looks t fails wanted := by
  induction job with
  | done a => rfl
  | panic text => rfl
  | ask request next ih =>
    cases request with
    | file call => simp only [ask_bind, Looks, ih]
    | _ => rfl

theorem Looks.mono {wanted' : α → Prop} (h : job.Looks t fails wanted)
    (himp : ∀ a, wanted a → wanted' a) : job.Looks t fails wanted' := by
  induction job with
  | done a => exact himp a h
  | panic text => exact h
  | ask request next ih =>
    cases request with
    | file call => exact ⟨h.1, fun reply htold => ih reply (h.2 reply htold)⟩
    | _ => exact h

theorem looks_file {call : Files.Call} (hcall : call.Looks) {wanted : call.Reply → Prop}
    (h : ∀ reply, call.Told t fails reply → wanted reply) :
    (Job.file call).Looks t fails wanted :=
  ⟨hcall, h⟩

section Host

variable (hfiles : host.HasFiles files) (hhost : fails ∨ host.Tells files t)
include hfiles hhost

/-- To look is answered by what is told of the tree, and nothing changes. -/
theorem told_answer {call : Files.Call} (hcall : call.Looks) (hs : files s = t) :
    ∃ reply, (host.answer (.file call) s).1.reply = .ok reply ∧ call.Told t fails reply ∧
      files (host.answer (.file call) s).2 = t := by
  subst hs
  have hanswers := hfiles.call call s
  have hsame := hanswers.looks hcall
  rcases hhost with hfails | htells
  · obtain ⟨reply, hreply⟩ := hanswers.exists_ok
    exact ⟨reply, hreply, .inr ⟨hfails, _, hreply ▸ hanswers⟩, hsame⟩
  · exact ⟨_, htells call s hcall rfl, .inl rfl, hsame⟩

/-- A job that looks comes to its end. -/
theorem Looks.run (h : job.Looks t fails wanted) (hs : files s = t) :
    ∃ a, (job.run host s).1.result = .ok a ∧ wanted a ∧ files (job.run host s).2 = t := by
  induction job generalizing s with
  | done a => exact ⟨a, rfl, h, hs⟩
  | panic text => exact h.elim
  | ask request next ih =>
    cases request with
    | file call =>
      obtain ⟨hcall, hnext⟩ := h
      obtain ⟨reply, hreply, htold, hsame⟩ := told_answer hfiles hhost hcall hs
      rw [Job.run]
      simp only [hreply]
      exact ih reply (hnext reply htold) hsame
    | _ => exact h.elim

end Host

end Job

/-! ### Work -/

/-- The work does nothing but look at files, and it comes to what they tell, unless a call fails and
it fails by that. -/
def Work.ComesTo (t : Tree) (fails : Prop) (work : Work α) (truth : Except Fault α) : Prop :=
  Job.Looks t fails work.run fun result => result = truth ∨ fails ∧ ∃ fault, result = .error fault

namespace Work

variable {work : Work α} {f : α → Work β} {path : String} {fault : Fault}

theorem comesTo_ofResult (result : Except Fault α) : (ofResult result).ComesTo t fails result :=
  .inl rfl

theorem comesTo_pure (a : α) : (pure a : Work α).ComesTo t fails (.ok a) :=
  .inl rfl

/-- What comes to a fault goes no further. -/
theorem ComesTo.bind_error (h : work.ComesTo t fails (.error fault)) :
    (work >>= f).ComesTo t fails (.error fault) := by
  show Job.Looks t fails (work >>= f).run _
  rw [run_bind_eq, Job.looks_bind]
  refine Job.Looks.mono h ?_
  rintro _ (rfl | ⟨hfails, other, rfl⟩)
  · exact .inl rfl
  · exact .inr ⟨hfails, other, rfl⟩

theorem ComesTo.bind {a : α} {truth : Except Fault β} (h : work.ComesTo t fails (.ok a))
    (hf : (f a).ComesTo t fails truth) : (work >>= f).ComesTo t fails truth := by
  show Job.Looks t fails (work >>= f).run _
  rw [run_bind_eq, Job.looks_bind]
  refine Job.Looks.mono h ?_
  rintro _ (rfl | ⟨hfails, other, rfl⟩)
  · exact hf
  · exact .inr ⟨hfails, other, rfl⟩

theorem ComesTo.mapFault {truth : Except Fault α} (g : Fault → Fault)
    (h : work.ComesTo t fails truth) : (work.mapFault g).ComesTo t fails (truth.mapError g) := by
  show Job.Looks t fails (work.run.bind _) _
  rw [Job.looks_bind]
  refine Job.Looks.mono h ?_
  rintro _ (rfl | ⟨hfails, other, rfl⟩)
  · exact .inl rfl
  · exact .inr ⟨hfails, g other, rfl⟩

/-- Of a file that is there all is read or, where calls may fail, a part of it. -/
theorem comesTo_read {bytes : List UInt8} {f : Files.Content → Work α} {truth : Except Fault α}
    (h : t.open? path = .ok (.file bytes)) (hall : (f ⟨bytes, none⟩).ComesTo t fails truth)
    (hpart : ∀ part cause, fails → part <+: bytes →
      (f ⟨part, some cause⟩).ComesTo t fails truth) :
    (onPath path (.file (.read path)) >>= f).ComesTo t fails truth := by
  show Job.Looks t fails (onPath path (.file (.read path)) >>= f).run _
  rw [run_bind_eq, Job.looks_bind]
  show Job.Looks t fails ((Job.file (.read path)).bind _) _
  rw [Job.looks_bind]
  refine Job.looks_file (.read path) ?_
  have hdone : (t.call (.read path)).1 = .ok ⟨bytes, none⟩ := Files.Entry.map_content_eq_ok.mpr h
  rintro reply (rfl | ⟨hfails, u, hanswers⟩)
  · rw [hdone]
    exact hall
  · cases hanswers with
    | done =>
      rw [hdone]
      exact hall
    | refused _ cause => exact .inr ⟨hfails, .io path cause, rfl⟩
    | broken _ cause hfile hprefix =>
      cases h.symm.trans hfile
      exact hpart _ cause hfails hprefix

end Work

namespace Dump

variable {path : String} {bytes : List UInt8} (h : t.open? path = .ok (.file bytes))
include h

theorem comesTo_bytesOf : (bytesOf path).ComesTo t fails (.ok bytes) :=
  Work.comesTo_read h (Work.comesTo_pure bytes) fun _ cause hfails _ =>
    .inr ⟨hfails, .io path cause, rfl⟩

theorem comesTo_headerOf : (headerOf path).ComesTo t fails (.ok (bytes.take headerLength)) := by
  refine Work.comesTo_read h ?_ fun part cause hfails hpart => ?_
  · refine .inl ?_
    show (Files.Content.front ⟨bytes, none⟩ headerLength).mapError _ = _
    rw [Files.Content.front]
    split
    · rfl
    · next hshort =>
      rw [List.take_of_length_le (by dsimp only at hshort; omega)]
      rfl
  · show ((Files.Content.front ⟨part, some cause⟩ headerLength).mapError _ = _) ∨ _
    rw [Files.Content.front]
    split
    · next hlong =>
      obtain ⟨rest, rfl⟩ := hpart
      rw [List.take_append_of_le_length hlong]
      exact .inl rfl
    · exact .inr ⟨hfails, .io path cause, rfl⟩

theorem comesTo_digest : (digest path).ComesTo t fails (.ok (Digest.Sha256.hex bytes)) := by
  rw [digest]
  exact (comesTo_bytesOf h).bind (Work.comesTo_pure _)

end Dump

end SqlBackup
