import Mathlib
import SqlBackup.Proofs.Backup.Creation
import SqlBackup.Proofs.Files.Root
import SqlBackup.Proofs.Files.Torn

/-!
# The backups below a root

Each backup that is there has its manifest and its dumps in a directory of its own, and no other
directory below the root has a manifest. What is changed in one of the directories leaves the others
as they are, so that all that matters of a change is what it makes of the backup of that name.
-/
namespace SqlBackup.Backup

open Files.Path (IsName IsDirectory join)
open Manifest (pathIn)
open Scripted (Tree Place)
open Scripted.Tree (AgreeOff AgreeUpTo Has HasEmpty LeadsTo NotBelow mem_namesAt)

variable {root id : String} {place : Place} {m : Manifest} {live : List Manifest}
  {base t u : Tree}

/-- The files of a backup are as its manifest says, and so is that of the manifest. -/
structure Kept (root : String) (place : Place) (m : Manifest) (t : Tree) : Prop where
  named : IsNamed m.id m.timestamp
  has : t.Has (join root m.id) (place ++ [m.id])
  stored : t.open? (pathIn (join root m.id)) = .ok (.file (Text.Utf8.encode m.text))
  names : ∀ f ∈ m.files, IsName f.filename
  records : ∀ f ∈ m.files, f.Records (t.open? (join (join root m.id) f.filename))

/-- Of the backups below a root these are there. Nothing else has been changed since the root was
empty. -/
structure Catalogue (base : Tree) (root : String) (place : Place) (live : List Manifest) (t : Tree) :
    Prop where
  agree : AgreeUpTo place base t
  nodup : (t.namesAt place).Nodup
  names : ∀ name ∈ t.namesAt place, IsName name
  ids : (live.map (·.id)).Nodup
  kept : ∀ m ∈ live, Kept root place m t
  hidden : ∀ name, (∀ m ∈ live, m.id ≠ name) →
    t.at? (place ++ [name] ++ [Manifest.filename]) = none

theorem isDirectory_of_isName (root : String) (h : IsName id) : IsDirectory (join root id) :=
  Files.Path.isDirectory_join h.noSlash h.ne_empty

/-- What is in the directory of another name is not below that of a name. -/
theorem not_prefix_of_ne {name : String} (h : name ≠ id) (rest : Place) :
    ¬ place ++ [id] <+: place ++ [name] ++ rest := by
  intro hbelow
  rw [List.append_assoc, List.prefix_append_right_inj] at hbelow
  exact h (List.cons_prefix_cons.mp hbelow).1.symm

/-- What a backup consists of is seen through its directory. -/
theorem Kept.congr (h : Kept root place m t) (ht : t.Has root place) (hu : u.Has root place)
    (hsame : ∀ rest, u.at? (place ++ [m.id] ++ rest) = t.at? (place ++ [m.id] ++ rest)) :
    Kept root place m u := by
  have hthere := hsame []
  rw [List.append_nil] at hthere
  have hhas : u.Has (join root m.id) (place ++ [m.id]) :=
    ⟨(ht.resolve_join_congr hu h.named.isName).trans h.has.resolves, hthere.trans h.has.isThere⟩
  refine ⟨h.named, hhas, ?_, h.names, fun f hf => ?_⟩
  · exact (h.has.open?_congr hhas Manifest.isName_filename (hsame _)).trans h.stored
  · rw [h.has.open?_congr hhas (h.names f hf) (hsame _)]
    exact h.records f hf

/-- Before there is any backup. -/
theorem catalogue_of_hasEmpty (h : base.HasEmpty root place) : Catalogue base root place [] base := by
  have hempty (name : String) (rest : Place) : base.at? (place ++ name :: rest) = none := by
    refine h.empty _ fun hbelow => ?_
    simpa using hbelow (List.prefix_append place _)
  have hnames : base.namesAt place = [] := by
    rw [List.eq_nil_iff_forall_not_mem]
    intro name hname
    obtain ⟨entry, hentry⟩ := mem_namesAt.mp hname
    rw [hempty] at hentry
    cases hentry
  refine ⟨AgreeUpTo.refl place base, ?_, ?_, List.nodup_nil, by simp, fun name _ => ?_⟩
  · rw [hnames]
    exact List.nodup_nil
  · rw [hnames]
    simp
  · rw [List.append_assoc]
    exact hempty name _

namespace Catalogue

variable (hbase : base.HasEmpty root place) (h : Catalogue base root place live t)
include hbase h

theorem has : t.Has root place := hbase.has h.agree

/-- A directory below the root has been changed, and nothing else. -/
theorem has_of_agreeOff (hagree : AgreeOff (place ++ [id]) t u) : u.Has root place :=
  hbase.has (h.agree.trans hagree.upTo)

/-- After a change in the directory of one name, the backups are those of the other names, and the
one that the directory holds now. -/
theorem change (hid : IsName id) (hagree : AgreeOff (place ++ [id]) t u)
    (hnodup : (u.namesAt place).Nodup) {own : Option Manifest}
    (hown : ∀ m ∈ own, m.id = id ∧ Kept root place m u)
    (hhidden : own = none → u.at? (place ++ [id] ++ [Manifest.filename]) = none) :
    Catalogue base root place (own.toList ++ live.filter (·.id != id)) u := by
  have hothers {name : String} (hne : name ≠ id) (rest : Place) :
      u.at? (place ++ [name] ++ rest) = t.at? (place ++ [name] ++ rest) :=
    hagree _ (not_prefix_of_ne hne rest)
  have hmem {m : Manifest} : m ∈ own.toList ++ live.filter (·.id != id) ↔
      m ∈ own ∨ m ∈ live ∧ m.id ≠ id := by
    simp
  refine ⟨h.agree.trans hagree.upTo, hnodup, fun name hname => ?_, ?_, fun m hm => ?_,
    fun name hname => ?_⟩
  · by_cases hne : name = id
    · exact hne ▸ hid
    · obtain ⟨entry, hentry⟩ := mem_namesAt.mp hname
      have hsame := hothers hne []
      rw [List.append_nil] at hsame
      exact h.names name (mem_namesAt.mpr ⟨entry, hsame.symm.trans hentry⟩)
  · rw [List.map_append, List.nodup_append]
    refine ⟨?_, h.ids.sublist (List.filter_sublist.map _), ?_⟩
    · cases own <;> simp
    · intro a ha b hb
      obtain ⟨m, hm, rfl⟩ := List.mem_map.mp ha
      obtain ⟨m', hm', rfl⟩ := List.mem_map.mp hb
      rw [(hown m (by simpa using hm)).1]
      have hne := (List.mem_filter.mp hm').2
      exact fun heq => (bne_iff_ne.mp hne) heq.symm
  · rcases hmem.mp hm with hm | ⟨hm, hne⟩
    · exact (hown m hm).2
    · exact (h.kept m hm).congr (h.has hbase) (h.has_of_agreeOff hbase hagree) (hothers hne)
  · by_cases hne : name = id
    · subst hne
      refine hhidden ?_
      cases own with
      | none => rfl
      | some m => exact absurd (hown m rfl).1 (hname m (hmem.mpr (.inl rfl)))
    · refine (hothers hne _).trans (h.hidden name fun m hm heq => ?_)
      exact hname m (hmem.mpr (.inr ⟨hm, heq ▸ hne⟩)) heq

omit hbase in
/-- A name that nothing has is that of no backup. -/
theorem id_ne_of_free (hfree : t.at? (place ++ [id]) = none) : ∀ m ∈ live, m.id ≠ id := by
  rintro m hm rfl
  have hthere := (h.kept m hm).has.isThere
  rw [hfree] at hthere
  cases hthere

/-- A directory whose name is that of no backup is changed, and gets no manifest. -/
theorem keep (hid : IsName id) (hnew : ∀ m ∈ live, m.id ≠ id)
    (hagree : AgreeOff (place ++ [id]) t u) (hnodup : (u.namesAt place).Nodup)
    (hhidden : u.at? (place ++ [id] ++ [Manifest.filename]) = none) :
    Catalogue base root place live u := by
  have hall : live.filter (·.id != id) = live :=
    List.filter_eq_self.mpr fun m hm => bne_iff_ne.mpr (hnew m hm)
  have hnone : ∀ m ∈ (none : Option Manifest), m.id = id ∧ Kept root place m u := by simp
  have hchange := h.change hbase hid hagree hnodup hnone fun _ => hhidden
  rwa [hall] at hchange

/-- A directory whose name is that of no backup has become that of one. -/
theorem add (hnew : ∀ m' ∈ live, m'.id ≠ m.id) (hagree : AgreeOff (place ++ [m.id]) t u)
    (hnodup : (u.namesAt place).Nodup) (hm : Kept root place m u) :
    Catalogue base root place (m :: live) u := by
  have hall : live.filter (·.id != m.id) = live :=
    List.filter_eq_self.mpr fun m' hm' => bne_iff_ne.mpr (hnew m' hm')
  have hsome : ∀ m' ∈ some m, m'.id = m.id ∧ Kept root place m' u := by
    rintro _ ⟨⟩
    exact ⟨rfl, hm⟩
  have hchange := h.change hbase hm.named.isName hagree hnodup hsome (by simp)
  rwa [hall] at hchange

end Catalogue

end SqlBackup.Backup
