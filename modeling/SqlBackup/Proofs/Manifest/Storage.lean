import Mathlib
import SqlBackup.Proofs.Files.Host
import SqlBackup.Proofs.Job.Dialogue
import SqlBackup.Proofs.Manifest.ReadBack
import SqlBackup.Proofs.Text.Encoding

/-!
# Manifests stored in a directory

A manifest that has been written stands in its file as a whole, and beside it nothing is changed.
Reading it gives the manifest.
-/
namespace SqlBackup

open Files (Entry)
open Files.Path (IsName join)
open Scripted (Tree Place)
open Scripted.Tree (AgreeOff LeadsTo Has Fresh Inside)

namespace Scripted.Tree

variable {t u v : Tree} {path source target directory : String} {place : Place}

theorem Answers.at?_create (h : t.Answers (.create path) (.ok (.ok ())) u)
    (hplace : t.LeadsTo path place) (hne : place ≠ []) : u.at? place = some (.file []) :=
  Tree.at?_create (h.eq_call nofun) hplace hne

theorem Answers.at?_append {old bytes : List UInt8}
    (h : t.Answers (.append path bytes) (.ok (.ok ())) u) (hplace : t.LeadsTo path place)
    (hne : place ≠ []) (hold : t.at? place = some (.file old)) :
    u.at? place = some (.file (old ++ bytes)) :=
  Tree.at?_append (h.eq_call nofun) hplace hne hold

/-- A file of a new directory gets another name there, and the other files stay. -/
theorem Fresh.rename (hfresh : t.Fresh directory place)
    (hin : t.Inside place u) (hsource : IsName source) (htarget : IsName target)
    {entry : Files.Entry}
    (hentry : u.at? (place ++ [source]) = some entry)
    (h : u.rename (join directory source) (join directory target) = (.ok (), v)) :
    t.Inside place v ∧ v.open? (join directory target) = .ok entry ∧
      ∀ name, name ≠ source → name ≠ target →
        v.at? (place ++ [name]) = u.at? (place ++ [name]) := by
  have hhas := hfresh.has hin
  obtain ⟨hresolve, hmoved, hothers⟩ := at?_rename h (hhas.leadsTo hsource)
    (hhas.leadsTo htarget) (by simp)
  have hin' : t.Inside place v := by
    refine ⟨fun other hoff => ?_, ?_⟩
    · have hbelow (name : String) : ¬ place ++ [name] <+: other :=
        fun h => hoff ((List.prefix_append place [name]).trans h)
      exact (hothers other (hbelow source) fun heq => hbelow target (heq ▸ List.prefix_rfl)).trans
        (hin.agree other hoff)
    · refine (hothers place (fun h => ?_) fun heq => ?_).trans hin.isThere
      · simpa using h.length_le
      · simpa using congrArg List.length heq
  refine ⟨hin', ?_, fun name hne hne' => hothers _ (fun h => ?_) (by simpa using hne')⟩
  · have hresolve' := (hhas.resolve_join_congr (hfresh.has hin') htarget).trans hresolve
    simp only [open?, hresolve', hmoved.trans hentry]
  · have heq := h.eq_of_length (by simp)
    exact hne (by simpa using heq.symm)

end Scripted.Tree

namespace Manifest

variable {σ : Type} {host : Host σ} {files : σ → Tree} {s : σ} {t u : Tree} {place : Place}
  {directory : String}

theorem isName_filename : IsName filename := ⟨by decide, by decide, by decide, by decide⟩

theorem isName_draftFilename : IsName draftFilename := ⟨by decide, by decide, by decide, by decide⟩

/-- The bytes of the manifest have been put into a directory, and its other files are as before. -/
structure Stored (directory : String) (place : Place) (bytes : List UInt8) (t u : Tree) : Prop where
  there : u.open? (pathIn directory) = .ok (.file bytes)
  others : ∀ name, name ≠ filename → name ≠ draftFilename →
    u.at? (place ++ [name]) = t.at? (place ++ [name])

theorem at?_sibling {name other : String} (h : AgreeOff (place ++ [name]) t u)
    (hne : other ≠ name) :
    u.at? (place ++ [other]) = t.at? (place ++ [other]) := by
  refine h _ fun hbelow => hne ?_
  have heq := hbelow.eq_of_length (by simp)
  simpa using heq.symm

section Works

variable (hfiles : host.HasFiles files) (hfresh : t.Fresh directory place)
include hfiles hfresh

/-- Whether the manifest can be written or not, only its directory is changed. -/
theorem works_write (m : Manifest) (hin : t.Inside place (files s)) :
    (m.write directory).Works host .whole s
      (fun _ s' => t.Inside place (files s') ∧
        Stored directory place (Text.Utf8.encode m.text) (files s) (files s'))
      (fun _ s' => t.Inside place (files s')) := by
  have hleads {s' : σ} {name : String} (hin' : t.Inside place (files s')) (hname : IsName name) :
      (files s').LeadsTo (join directory name) (place ++ [name]) :=
    (hfresh.has hin').leadsTo hname
  have hne (name : String) : place ++ [name] ≠ [] := by simp
  rw [write]
  refine Work.Works.bind (m := fun _ s₁ => t.Inside place (files s₁) ∧
    AgreeOff (place ++ [draftFilename]) (files s) (files s₁) ∧
      (files s₁).at? (place ++ [draftFilename]) = some (.file [])) ?_ ?_
  · refine Work.works_ofExcept (Request.works_whole fun answer hanswer => ?_)
    have hcall := hfiles.call (.create (join directory draftFilename)) s
    rw [hanswer] at hcall
    have hagree := hcall.agreeOff .create (hleads hin isName_draftFilename)
    cases answer with
    | error fault => exact hin.of_agreeOff hagree
    | ok value =>
      exact ⟨hin.of_agreeOff hagree, hagree,
        hcall.at?_create (hleads hin isName_draftFilename) (hne _)⟩
  rintro ⟨⟩ s₁ ⟨hin₁, hagree₁, hempty⟩
  refine Work.Works.bind (m := fun _ s₂ => t.Inside place (files s₂) ∧
    AgreeOff (place ++ [draftFilename]) (files s) (files s₂) ∧
      (files s₂).at? (place ++ [draftFilename]) =
        some (.file (Text.Utf8.encode m.text))) ?_ ?_
  · refine Work.works_ofExcept (Request.works_whole fun answer hanswer => ?_)
    have hcall := hfiles.call
      (.append (join directory draftFilename) (Text.Utf8.encode m.text)) s₁
    rw [hanswer] at hcall
    have hagree := hcall.agreeOff (.append _) (hleads hin₁ isName_draftFilename)
    cases answer with
    | error fault => exact hin₁.of_agreeOff hagree
    | ok value =>
      exact ⟨hin₁.of_agreeOff hagree, hagree₁.trans hagree,
        hcall.at?_append (hleads hin₁ isName_draftFilename) (hne _) hempty⟩
  rintro ⟨⟩ s₂ ⟨hin₂, hagree₂, hfull⟩
  refine Work.Works.bind (m := fun _ s₃ => files s₃ = files s₂) ?_ ?_
  · refine Work.works_ofExcept (Request.works_whole fun answer hanswer => ?_)
    have hsame := (hfiles.call (.sync (join directory draftFilename)) s₂).sync
    cases answer with
    | error fault => exact hsame ▸ hin₂
    | ok value => exact hsame
  rintro ⟨⟩ s₃ hsame
  rw [← hsame] at hin₂ hagree₂ hfull
  refine Work.works_ofExcept (Request.works_whole fun answer hanswer => ?_)
  have hcall := hfiles.call (.rename (join directory draftFilename) (pathIn directory)) s₃
  rw [hanswer] at hcall
  cases answer with
  | error fault =>
    rw [← hcall.rename_error] at hin₂
    exact hin₂
  | ok value =>
    obtain ⟨hin₄, hopen, hothers⟩ := hfresh.rename hin₂ isName_draftFilename
      isName_filename hfull (hcall.eq_call nofun)
    exact ⟨hin₄, hopen, fun name hfinal hdraft =>
      (hothers name hdraft hfinal).trans (at?_sibling hagree₂ hdraft)⟩

end Works

/-- A manifest is read where its file is told of as it was written. -/
theorem succeeds_read_of_answer {m : Manifest} (hsound : m.Sound)
    (hanswer : (host.answer (.file (.read (pathIn directory))) s).1.reply =
      .ok (.ok ⟨Text.Utf8.encode m.text, none⟩)) :
    (read directory).Succeeds host s fun a s' =>
      a = m ∧ s' = (host.answer (.file (.read (pathIn directory))) s).2 := by
  generalize hs' : (host.answer (.file (.read (pathIn directory))) s).2 = s'
  rw [read, Dump.bytesOf]
  refine Work.Succeeds.bind (m := fun bytes t => bytes = Text.Utf8.encode m.text ∧ t = s') ?_ ?_
  · refine Work.Succeeds.bind
      (m := fun content t => content = ⟨Text.Utf8.encode m.text, none⟩ ∧ t = s') ?_ ?_
    · exact Work.succeeds_ofExcept (Job.ends_request hanswer ⟨_, rfl, rfl, hs'⟩)
    · rintro _ _ ⟨rfl, rfl⟩
      exact Work.succeeds_ofResult rfl ⟨rfl, rfl⟩
  · rintro _ _ ⟨rfl, rfl⟩
    rw [Text.Utf8.decode?_encode]
    exact Work.succeeds_ofResult (by rw [ofText_text hsound]; rfl) ⟨rfl, rfl⟩

/-- A stored manifest is read, unless its file cannot be. -/
theorem succeeds_read {m : Manifest} (hfiles : host.HasFiles files) (hsound : m.Sound)
    (hstored : (files s).open? (pathIn directory) = .ok (.file (Text.Utf8.encode m.text)))
    {bytes : List UInt8} (hanswer : (host.answer (.file (.read (pathIn directory))) s).1.reply =
      .ok (.ok ⟨bytes, none⟩)) :
    (read directory).Succeeds host s fun a s' =>
      a = m ∧ s' = (host.answer (.file (.read (pathIn directory))) s).2 := by
  have hcall := hfiles.call (.read (pathIn directory)) s
  rw [hanswer] at hcall
  have hopen := Files.Entry.map_content_eq_ok.mp (congrArg Prod.fst (hcall.eq_call nofun))
  cases hstored.symm.trans hopen
  exact succeeds_read_of_answer hsound hanswer

end Manifest

end SqlBackup
