import Mathlib
import SqlBackup.Proofs.Backup.Allocation

/-!
# Backups that are made side by side

Any number of backups are made below one root, and take turns at their requests in any order. That a
directory is made only where nothing is keeps them apart: each has its directory for itself from the
request that makes it to the one that removes it, and none of the others changes anything in it.
-/
namespace SqlBackup

open Files.Path (IsName join)
open Scripted (Tree Place)
open Scripted.Tree (AgreeOff AgreeUpTo Fresh Has NotBelow Opens Paved Rooted)

namespace Scripted.Tree

variable {base t u : Tree} {place : Place} {root id path : String} {own : Set String}
  {call : Files.Call}

/-! ### What is open -/

/-- What is done at a place that is not open in a part of the tree keeps that part open. -/
theorem Opens.of_agreeOff (h : base.Opens t) (hagree : AgreeOff place t u)
    (hclosed : ¬ base.IsOpen place) : base.Opens u := by
  intro p hp other hother
  have hoff : ¬ place <+: other := fun hbelow => hclosed (hp.above (hbelow.trans hother))
  rw [hagree other hoff]
  exact h p hp other hother

/-- A call on a file makes no directory and takes none away. -/
theorem opens_call (hcall : call.IsOn path) : t.Opens (t.call call).2 := by
  by_cases hthere : ∀ p, t.resolve path = .ok p → t.at? p = some .directory
  · rw [call_eq_of_not_closed hcall hthere]
    exact .refl t
  · push Not at hthere
    obtain ⟨p, hp, hclosed⟩ := hthere
    have hleads : t.LeadsTo path p := fun q hq => Except.ok.inj (hq.symm.trans hp)
    exact (Opens.refl t).of_agreeOff (agreeOff_call hcall hleads) fun hopen => hclosed hopen.isThere

theorem Answers.opens {reply : Except String call.Reply} (h : t.Answers call reply u)
    (hcall : call.IsOn path) : t.Opens u := by
  cases h with
  | done => exact opens_call hcall
  | refused => exact .refl t
  | broken => exact .refl t
  | @cut path part bytes fault hpart => exact opens_call (.append part)
  | halted => cases hcall

/-! ### Directories beside each other -/

theorem eq_of_below {p : Place} {a b : String} (ha : place ++ [a] <+: p) (hb : place ++ [b] <+: p) :
    a = b := by
  obtain ⟨rest, rfl⟩ := ha
  obtain ⟨rest', hrest⟩ := hb
  rw [List.append_assoc, List.append_assoc, List.append_cancel_left_eq] at hrest
  exact (List.cons.inj hrest).1.symm

/-- Each of these names has a directory below a root, which was not there in a part of the tree that
has the root. -/
structure Beside (root : String) (place : Place) (own : Set String) (base t : Tree) : Prop where
  rooted : base.Rooted root place
  opens : base.Opens t
  names : ∀ id ∈ own, IsName id
  resolves : ∀ id ∈ own, base.resolve (join root id) = .ok (place ++ [id])
  closed : ∀ id ∈ own, ¬ base.IsOpen (place ++ [id])
  isThere : ∀ id ∈ own, t.at? (place ++ [id]) = some .directory

namespace Beside

variable (h : Beside root place own base t)
include h

theorem has (hid : id ∈ own) : t.Has (join root id) (place ++ [id]) :=
  ⟨(h.rooted.resolve_congr (h.rooted.opens h.opens) (h.names id hid)).trans (h.resolves id hid),
    h.isThere id hid⟩

/-- Directories stay as long as all stays open. -/
theorem keep (hopens : t.Opens u) : Beside root place own base u where
  rooted := h.rooted
  opens := h.opens.trans hopens
  names := h.names
  resolves := h.resolves
  closed := h.closed
  isThere id hid :=
    (hopens _ (Scripted.Tree.isOpen_concat.mpr
      ⟨(h.rooted.opens h.opens).isOpen, h.isThere id hid⟩)).isThere

/-- What is done in one directory leaves the others. -/
theorem off (hclosed : ¬ base.IsOpen (place ++ [id])) (hagree : AgreeOff (place ++ [id]) t u) :
    Beside root place (own \ {id}) base u where
  rooted := h.rooted
  opens := h.opens.of_agreeOff hagree hclosed
  names other hother := h.names other hother.1
  resolves other hother := h.resolves other hother.1
  closed other hother := h.closed other hother.1
  isThere other hother := by
    rw [hagree _ fun hbelow => hother.2 (eq_of_below List.prefix_rfl hbelow)]
    exact h.isThere other hother.1

theorem below (hid : id ∈ own) (hagree : AgreeUpTo (place ++ [id]) t u) :
    Beside root place own base u := by
  have hoff := h.off (h.closed id hid) fun other hother =>
    hagree other fun hbelow => absurd hbelow hother
  refine ⟨h.rooted, hoff.opens, h.names, h.resolves, h.closed, fun other hother => ?_⟩
  by_cases heq : other = id
  · subst heq
    rw [hagree _ fun _ => rfl]
    exact h.isThere other hother
  · exact hoff.isThere other ⟨hother, heq⟩

/-- A new directory is beside the others. -/
theorem insert (hname : IsName id) {p : Place} (hfresh : t.Fresh (join root id) p) :
    id ∉ own ∧ p = place ++ [id] ∧
      Beside root place (Insert.insert id own) base (t.put p .directory) := by
  have hrooted := h.rooted.opens h.opens
  obtain rfl := hrooted.leadsTo hname p hfresh.resolves
  have hput := h.keep (Scripted.Tree.keeps_put hfresh.free .directory).opens
  have hclosed : ¬ base.IsOpen (place ++ [id]) := fun hopen =>
    Scripted.Tree.not_isOpen_of_free hfresh.free (h.opens _ hopen)
  refine ⟨fun hid => ?_, rfl, h.rooted, hput.opens, ?_, ?_, ?_, ?_⟩
  · have hthere := h.isThere id hid
    rw [hfresh.free] at hthere
    cases hthere
  · rintro other (rfl | hother)
    · exact hname
    · exact h.names other hother
  · rintro other (rfl | hother)
    · exact (hrooted.resolve_congr h.rooted hname).trans hfresh.resolves
    · exact h.resolves other hother
  · rintro other (rfl | hother)
    · exact hclosed
    · exact h.closed other hother
  · rintro other (rfl | hother)
    · exact Scripted.Tree.at?_put_self (by simp)
    · exact hput.isThere other hother

end Beside

/-- The first directory below a root. -/
theorem beside_put (hname : IsName id) {p : Place} (hfresh : t.Fresh (join root id) p) :
    ∃ place, p = place ++ [id] ∧ Beside root place {id} t (t.put p .directory) := by
  obtain ⟨place, hrooted, rfl⟩ := exists_rooted hfresh.resolves hname
  have hnone : Beside root place ∅ t t :=
    ⟨hrooted, .refl t, by simp, by simp, by simp, by simp⟩
  obtain ⟨-, -, hbeside⟩ := hnone.insert hname hfresh
  exact ⟨place, rfl, by simpa using hbeside⟩

end Scripted.Tree

namespace Backup

open Scripted.Tree (Beside)

variable {σ ι : Type} {settings : Settings} {request : Request} {draft : Draft}
  {talk : List Asked} {asked : Asked} {root id path : String} {t u : Tree}

/-! ### Whose a directory is -/

/-- A backup has been given this directory, and is not to remove it. -/
def Owns (settings : Settings) (talk : List Asked) (id : String) : Prop :=
  Given settings talk id ∧ Unremoved talk

/-- What was removed is the directory that was given. -/
def Cleared (settings : Settings) (talk : List Asked) : Prop :=
  ∀ path answer, ⟨.file (.removeTree path), answer⟩ ∈ talk →
    answer = .ok (.ok ()) ∧ ∃ id, Given settings talk id ∧ path = settings.directory id

theorem owns_eq (hgiven : Given settings talk id) (hkept : Unremoved talk) :
    Owns settings talk = (· = id) := by
  funext other
  exact propext ⟨fun h => hgiven.unique h.1, fun h => h ▸ ⟨hgiven, hkept⟩⟩

theorem owns_eq_none (h : ∀ id, ¬ Given settings talk id) :
    Owns settings talk = fun _ => False := by
  funext id
  exact propext ⟨fun howns => h id howns.1, False.elim⟩

theorem owns_of_removed {answer : Except String (Except IoFault Unit)}
    (h : ⟨.file (.removeTree path), answer⟩ ∈ talk) :
    Owns settings talk = fun _ => False := by
  funext id
  exact propext ⟨fun howns => howns.2 _ h path rfl, False.elim⟩

theorem given_other (h : ∀ path, asked.request ≠ .file (.makeDirectory path)) :
    Given settings (talk ++ [asked]) id ↔ Given settings talk id := by
  simp only [Given, tries_other h]

theorem owns_other (h : ∀ path, asked.request ≠ .file (.makeDirectory path))
    (h' : ∀ path, asked.request ≠ .file (.removeTree path)) :
    Owns settings (talk ++ [asked]) = Owns settings talk := by
  funext id
  simp only [Owns, given_other h, unremoved_concat, h', implies_true, ne_eq, not_false_eq_true,
    and_true]

theorem Cleared.other (h : Cleared settings talk)
    (hother : ∀ path, asked.request ≠ .file (.makeDirectory path))
    (hother' : ∀ path, asked.request ≠ .file (.removeTree path)) :
    Cleared settings (talk ++ [asked]) := by
  intro path answer hmem
  rw [List.mem_append, List.mem_singleton] at hmem
  rcases hmem with hold | rfl
  · simpa only [given_other hother] using h path answer hold
  · exact absurd rfl (hother' path)

/-- What was removed was removed of a directory that is given, whatever else has been asked. -/
theorem cleared_of_unremoved (h : Unremoved talk) : Cleared settings talk :=
  fun path _ hmem => absurd rfl (h _ hmem path)

theorem Occupies.owns (h : Occupies talk path) (hsearched : Searched settings talk)
    (hcleared : Cleared settings talk) : ∃ id, Owns settings talk id ∧ path = settings.directory id := by
  obtain ⟨id, hgiven, rfl⟩ := hsearched.given h.made
  refine ⟨id, ⟨hgiven, fun other hother path hremove => ?_⟩, rfl⟩
  obtain ⟨request, answer⟩ := other
  obtain rfl : request = .file (.removeTree path) := hremove
  obtain ⟨rfl, other, hother', rfl⟩ := hcleared path answer hother
  rw [hgiven.unique hother'] at hother
  exact h.kept hother

theorem Owns.occupies (h : Owns settings talk id) : Occupies talk (settings.directory id) :=
  ⟨h.1.made, fun hremoved => h.2 _ hremoved _ rfl⟩

/-- The directories of some backups are beside each other, and no two have the same. -/
structure Apart (root : String) (own : ι → String → Prop) (t : Tree) : Prop where
  unique : ∀ i j id, own i id → own j id → i = j
  beside : ∀ i id, own i id → ∃ place base, Beside root place {id | ∃ i, own i id} base t

namespace Apart

variable {own : ι → String → Prop} (h : Apart root own t)
include h

theorem keep (hbeside : ∀ place own base, Beside root place own base t →
    Beside root place own base u) : Apart root own u := by
  refine ⟨h.unique, fun i id hown => ?_⟩
  obtain ⟨place, base, hbase⟩ := h.beside i id hown
  exact ⟨place, base, hbeside _ _ _ hbase⟩

variable [DecidableEq ι] {i : ι}

/-- A backup is given a directory that none of the others has. -/
theorem insert (hname : IsName id) {p : Place} (hfresh : t.Fresh (join root id) p)
    (hnone : own i = fun _ => False) :
    Apart root (Function.update own i (· = id)) (t.put p .directory) := by
  have hown (j : ι) (other : String) : Function.update own i (· = id) j other ↔
      own j other ∨ j = i ∧ other = id := by
    by_cases hj : j = i
    · subst hj
      simp [hnone]
    · simp [hj]
  have hset : {other | ∃ j, Function.update own i (· = id) j other} =
      Insert.insert id {other | ∃ j, own j other} := by
    ext other
    simp only [Set.mem_ofPred_eq, hown, Set.mem_insert_iff]
    constructor
    · rintro ⟨j, hj | ⟨-, rfl⟩⟩
      · exact .inr ⟨j, hj⟩
      · exact .inl rfl
    · rintro (rfl | ⟨j, hj⟩)
      · exact ⟨i, .inr ⟨rfl, rfl⟩⟩
      · exact ⟨j, .inl hj⟩
  have hnew : ¬ ∃ j, own j id := by
    rintro ⟨j, hj⟩
    obtain ⟨place, base, hbase⟩ := h.beside j id hj
    exact (hbase.insert hname hfresh).1 ⟨j, hj⟩
  refine ⟨fun j k other hj hk => ?_, fun j other hj => ?_⟩
  · rw [hown] at hj hk
    rcases hj with hj | ⟨rfl, rfl⟩
    · rcases hk with hk | ⟨rfl, rfl⟩
      · exact h.unique j k other hj hk
      · exact absurd ⟨j, hj⟩ hnew
    · rcases hk with hk | ⟨rfl, -⟩
      · exact absurd ⟨k, hk⟩ hnew
      · rfl
  · rw [hset]
    by_cases hsome : ∃ k other, own k other
    · obtain ⟨k, other, hk⟩ := hsome
      obtain ⟨place, base, hbase⟩ := h.beside k other hk
      exact ⟨place, base, (hbase.insert hname hfresh).2.2⟩
    · have hempty : {other | ∃ j, own j other} = ∅ := by
        ext other
        simpa using fun k hk => hsome ⟨k, other, hk⟩
      obtain ⟨place, -, hbase⟩ := Scripted.Tree.beside_put hname hfresh
      rw [hempty]
      exact ⟨place, t, by simpa using hbase⟩

/-- A backup removes its directory, and the others keep theirs. -/
theorem erase (hown : own i = (· = id)) {place : Place}
    (hplace : t.resolve (join root id) = .ok place) (hagree : AgreeOff place t u) :
    Apart root (Function.update own i fun _ => False) u := by
  have hless (j : ι) (other : String) : Function.update own i (fun _ => False) j other ↔
      own j other ∧ other ≠ id := by
    by_cases hj : j = i
    · subst hj
      simp [hown]
    · simp only [Function.update_of_ne hj]
      refine (and_iff_left_of_imp fun hother heq => hj ?_).symm
      subst heq
      exact h.unique j i _ hother (by rw [hown])
  have hset : {other | ∃ j, Function.update own i (fun _ => False) j other} =
      {other | ∃ j, own j other} \ {id} := by
    ext other
    simp [hless]
  refine ⟨fun j k other hj hk => ?_, fun j other hj => ?_⟩
  · exact h.unique j k other ((hless j other).mp hj).1 ((hless k other).mp hk).1
  · obtain ⟨p, base, hbase⟩ := h.beside i id (by rw [hown])
    have hid : id ∈ {other | ∃ j, own j other} := ⟨i, by rw [hown]⟩
    obtain rfl : place = p ++ [id] := Except.ok.inj (hplace.symm.trans (hbase.has hid).resolves)
    rw [hset]
    exact ⟨p, base, hbase.off (hbase.closed id hid) hagree⟩

end Apart

/-! ### A single request -/

section Step

variable {host : Host σ} {files : σ → Tree} {s : σ} {requested : SqlBackup.Request}
  (hfiles : host.HasFiles files)
include hfiles

theorem opens_of_isOn (h : requested.IsOn path) :
    (files s).Opens (files (host.answer requested s).2) := by
  cases requested with
  | file call => exact (hfiles.call call s).opens h
  | _ =>
    rw [hfiles.silent _ s (by simp)]
    exact .refl _

variable {own : ι → String → Prop} (h : Apart root own (files s)) [DecidableEq ι] {i : ι}
  (hroot : settings.root = root) (hown : own i = Owns settings talk)
include h hroot hown

/-- With a request of its planning a backup may be given a directory, and nothing else changes. -/
theorem Apart.plans (hkept : Unremoved talk) (hplans : PlansSince settings talk requested) :
    Apart root (Function.update own i
      (Owns settings (talk ++ [⟨requested, (host.answer requested s).1.reply⟩])))
      (files (host.answer requested s).2) := by
  obtain ⟨time, n, htries, hplans⟩ := hplans
  cases hplans with
  | silent hsilent =>
    rw [owns_other (fun _ => hsilent _) fun _ => hsilent _, ← hown, Function.update_eq_self,
      hfiles.silent _ s hsilent]
    exact h
  | root =>
    rw [owns_other (by simp) (by simp), ← hown, Function.update_eq_self]
    have hopens := (hfiles.call (.makeDirectories settings.root) s).makeDirectories.keeps.opens
    exact h.keep fun _ _ _ hbeside => hbeside.keep hopens
  | next =>
    have hcall := hfiles.call (.makeDirectory (settings.directory (numbered time.compact n))) s
    obtain ⟨answer, hanswer⟩ := hcall.exists_ok
    have hold : Owns settings talk = fun _ => False :=
      owns_eq_none fun _ => not_given_of_taken htries
    have htries' : tries (talk ++ [⟨.file (.makeDirectory
        (settings.directory (numbered time.compact n))), .ok answer⟩]) =
        taken settings time n ++ [(settings.directory (numbered time.compact n), .ok answer)] := by
      rw [tries_concat, htries]
      rfl
    rw [hanswer] at hcall ⊢
    rcases hcall.makeDirectory with ⟨rfl, place, hfresh, hput⟩ | ⟨⟨fault, rfl⟩, hsame⟩
    · have hgiven : Given settings (talk ++ [⟨.file (.makeDirectory
          (settings.directory (numbered time.compact n))), .ok (.ok ())⟩])
          (numbered time.compact n) := ⟨time, n, rfl, htries'⟩
      rw [owns_eq hgiven (unremoved_concat.mpr ⟨hkept, by simp⟩), hput]
      rw [Settings.directory, hroot] at hfresh
      exact h.insert (isName_numbered time n) hfresh (hown.trans hold)
    · rw [owns_eq_none fun _ => not_given_of_tries htries' (by simp), ← hold, ← hown,
        Function.update_eq_self, hsame]
      exact h

/-- With a request of its making a backup keeps its directory or removes it, and the others keep
theirs. -/
theorem Apart.fills (hgiven : Given settings talk draft.id) (hkept : Unremoved talk)
    (hfills : Dumps settings draft requested ∨ Fills (settings.directory draft.id) requested) :
    Apart root (Function.update own i
        (Owns settings (talk ++ [⟨requested, (host.answer requested s).1.reply⟩])))
        (files (host.answer requested s).2) ∧
      Cleared settings (talk ++ [⟨requested, (host.answer requested s).1.reply⟩]) := by
  have hcleared : Cleared settings talk := cleared_of_unremoved hkept
  have hid : own i draft.id := by
    rw [hown]
    exact ⟨hgiven, hkept⟩
  have hon {path : String} (hon : requested.IsOn path) :
      Apart root (Function.update own i
          (Owns settings (talk ++ [⟨requested, (host.answer requested s).1.reply⟩])))
          (files (host.answer requested s).2) ∧
        Cleared settings (talk ++ [⟨requested, (host.answer requested s).1.reply⟩]) := by
    have hother (path : String) := ne_makeDirectory_of_isOn hon path
    refine ⟨?_, hcleared.other (fun path => (hother path).1) fun path => (hother path).2⟩
    rw [owns_other (fun path => (hother path).1) fun path => (hother path).2, ← hown,
      Function.update_eq_self]
    exact h.keep fun _ _ _ hbeside => hbeside.keep (opens_of_isOn hfiles hon)
  rcases hfills with ⟨_, -, hdump⟩ | hfills
  · exact hon hdump
  obtain ⟨place, base, hbase⟩ := h.beside i draft.id hid
  have hhas : (files s).Has (join root draft.id) (place ++ [draft.id]) := hbase.has ⟨i, hid⟩
  rw [← hroot] at hhas
  cases hfills with
  | writes hwrites =>
    obtain ⟨name, -, -, hdraft⟩ := hwrites
    exact hon hdraft
  | rename =>
    refine ⟨?_, hcleared.other (by simp) (by simp)⟩
    rw [owns_other (by simp) (by simp), ← hown, Function.update_eq_self]
    have hagree := (hfiles.call _ s).agreeUpTo_rename
      (hhas.leadsTo Manifest.isName_draftFilename) (hhas.leadsTo Manifest.isName_filename)
    refine ⟨h.unique, fun _ _ _ => ⟨place, base, ?_⟩⟩
    exact hbase.below ⟨i, hid⟩ hagree
  | removeTree =>
    have hcall := hfiles.call (.removeTree (settings.directory draft.id)) s
    obtain ⟨answer, hanswer⟩ := hcall.exists_ok
    rw [hanswer] at hcall ⊢
    obtain ⟨rfl, hprune⟩ := hcall.removeTree hhas
    have hremoved : ⟨.file (.removeTree (settings.directory draft.id)), .ok (.ok ())⟩ ∈
        talk ++ [(⟨.file (.removeTree (settings.directory draft.id)), .ok (.ok ())⟩ : Asked)] :=
      List.mem_append_right talk (List.mem_singleton_self _)
    constructor
    · rw [owns_of_removed hremoved, hprune]
      refine h.erase (hown.trans (owns_eq hgiven hkept)) ?_ (Scripted.Tree.agreeOff_prune _ _)
      rw [← hroot]
      exact hhas.resolves
    · intro path answer hmem
      rw [List.mem_append, List.mem_singleton] at hmem
      rcases hmem with hold | hnew
      · exact absurd rfl (hkept _ hold path)
      · cases hnew
        exact ⟨rfl, draft.id, hgiven.other (by simp), rfl⟩

theorem Apart.due (hdue : Due settings request talk requested) :
    Apart root (Function.update own i
        (Owns settings (talk ++ [⟨requested, (host.answer requested s).1.reply⟩])))
        (files (host.answer requested s).2) ∧
      Cleared settings (talk ++ [⟨requested, (host.answer requested s).1.reply⟩]) := by
  cases hdue with
  | plans hplans hkept =>
    refine ⟨h.plans hfiles hroot hown hkept hplans, ?_⟩
    obtain ⟨time, n, -, hplans⟩ := hplans
    exact cleared_of_unremoved (unremoved_concat.mpr ⟨hkept, hplans.ne_removeTree⟩)
  | fills hgiven hkept _ hfills => exact h.fills hfiles hroot hown hgiven hkept hfills

omit [DecidableEq ι] in
/-- What a backup asks changes nothing in the directory of another. -/
theorem Apart.untouched (hdue : Due settings request talk requested)
    (hnames : ∀ databases, Chosen request talk databases →
      ∀ database ∈ databases, '/' ∉ database.toList)
    {j : ι} (hj : j ≠ i) (hother : own j id) {place : Place}
    (hhas : (files s).Has (join root id) place) :
    (files (host.answer requested s).2).Has (join root id) place ∧
      ∀ q, place <+: q → (files (host.answer requested s).2).at? q = (files s).at? q := by
  obtain ⟨above, base, hbase⟩ := h.beside j id hother
  have hplace : place = above ++ [id] :=
    Except.ok.inj (hhas.resolves.symm.trans (hbase.has ⟨j, hother⟩).resolves)
  subst hplace
  have hoff {u : Tree} (new : String) (hne : new ≠ id) (hclosed : ¬ base.IsOpen (above ++ [new]))
      (hagree : AgreeOff (above ++ [new]) (files s) u) : u.Has (join root id) (above ++ [id]) ∧
        ∀ q, above ++ [id] <+: q → u.at? q = (files s).at? q :=
    ⟨(hbase.off hclosed hagree).has ⟨⟨j, hother⟩, hne.symm⟩,
      fun q hq => hagree q fun hnew => hne (Scripted.Tree.eq_of_below hnew hq)⟩
  cases hdue with
  | plans hplans hkept =>
    obtain ⟨time, n, -, hplans⟩ := hplans
    cases hplans with
    | silent hsilent =>
      rw [hfiles.silent _ s hsilent]
      exact ⟨hhas, fun _ _ => rfl⟩
    | root =>
      have hpaved := (hfiles.call (.makeDirectories settings.root) s).makeDirectories
      rw [hroot] at hpaved
      rw [hroot, (hbase.rooted.opens hbase.opens).eq_of_paved hpaved]
      exact ⟨hhas, fun _ _ => rfl⟩
    | next =>
      have hcall := hfiles.call (.makeDirectory (settings.directory (numbered time.compact n))) s
      obtain ⟨answer, hanswer⟩ := hcall.exists_ok
      rw [hanswer] at hcall
      rcases hcall.makeDirectory with ⟨-, p, hfresh, hput⟩ | ⟨-, hsame⟩
      · rw [Settings.directory, hroot] at hfresh
        obtain ⟨hnew, rfl, hinserted⟩ := hbase.insert (isName_numbered time n) hfresh
        rw [hput]
        refine hoff _ ?_ (hinserted.closed _ (Set.mem_insert _ _)) (Scripted.Tree.agreeOff_put _ _ _)
        rintro rfl
        exact hnew ⟨j, hother⟩
      · rw [hsame]
        exact ⟨hhas, fun _ _ => rfl⟩
  | @fills draft hgiven hkept hchosen hfills =>
    have hid : own i draft.id := by
      rw [hown]
      exact ⟨hgiven, hkept⟩
    have hne : draft.id ≠ id := fun heq => hj (h.unique j i id hother (heq ▸ hid))
    have hfills : Fills (settings.directory draft.id) requested :=
      hfills.elim (fun hdump => .writes (hdump.writes (hnames _ hchosen))) fun hfills => hfills
    have hown := hbase.has ⟨i, hid⟩
    refine hoff _ hne (hbase.closed _ ⟨i, hid⟩)
      (hfills.agreeOff hfiles hgiven.isName fun p hp => ?_)
    rw [Settings.directory, hroot] at hp
    exact Except.ok.inj (hp.symm.trans hown.resolves)

end Step

/-! ### All runs -/

/-- A directory is there before and after, and all in it is the same. -/
def Untouched (path : String) (t u : Tree) : Prop :=
  ∃ place, t.Has path place ∧ u.Has path place ∧ ∀ q, place <+: q → u.at? q = t.at? q

/-- What a request does about directories. One that is made was not there, and where it cannot be made
because something is there, something is. One that is removed belongs to what removes it. -/
structure Guarded (talk : List Asked) (asked : Asked) (t u : Tree) : Prop where
  made : ∀ path, asked = ⟨.file (.makeDirectory path), .ok (.ok ())⟩ →
    t.open? path = .error (.os .notFound) ∧ u.open? path = .ok .directory
  collided : ∀ path,
    asked = ⟨.file (.makeDirectory path), .ok (.error (.os .alreadyExists))⟩ →
      ∃ entry, t.open? path = .ok entry
  removed : ∀ path answer, asked = ⟨.file (.removeTree path), answer⟩ →
    Occupies talk path ∧ ∃ place, t.Has path place ∧ u = t.prune place

/-- A host says that something is where a directory is to be made only if there is. -/
def TellsCollisions (host : Host σ) (files : σ → Tree) : Prop :=
  ∀ path s, (host.answer (.file (.makeDirectory path)) s).1.reply =
    .ok (.error (.os .alreadyExists)) → ∃ entry, (files s).open? path = .ok entry

section Runs

open Plan (SideBySide Stage Step talkOf)

variable [DecidableEq ι] {host : ι → Host σ} {settings : ι → Settings} {request : ι → Request}
  {files : σ → Tree} {root : String} {s₀ s s' : σ} {talk later : List (ι × Asked)}
  {stages stages' : ι → Stage σ Manifest.File Manifest} {i j : ι}

/-- Which directories the runs have. -/
def owned (settings : ι → Settings) (talk : List (ι × Asked)) (i : ι) : String → Prop :=
  Owns (settings i) (talkOf i talk)

/-- What is known of runs that are side by side. -/
structure Abreast (settings : ι → Settings) (request : ι → Request) (root : String)
    (talk : List (ι × Asked)) (stages : ι → Stage σ Manifest.File Manifest) (t : Tree) : Prop where
  stands : ∀ i, Stands (settings i) (request i) (talkOf i talk) (stages i)
  cleared : ∀ i, Cleared (settings i) (talkOf i talk)
  apart : Apart root (owned settings talk) t

theorem owned_concat (settings : ι → Settings) (talk : List (ι × Asked)) (i : ι) (asked : Asked) :
    owned settings (talk ++ [(i, asked)]) = Function.update (owned settings talk) i
      (Owns (settings i) (talkOf i talk ++ [asked])) := by
  funext j
  by_cases hj : j = i
  · subst hj
    rw [Function.update_self, owned, Plan.talkOf_append]
    simp [talkOf]
  · rw [Function.update_of_ne hj, owned, Plan.talkOf_append, owned]
    simp [talkOf, Ne.symm hj]

theorem not_given_nil (settings : Settings) (id : String) : ¬ Given settings [] id :=
  not_given_of_taken (i := default) (n := 0) rfl

variable (hroot : ∀ i, (settings i).root = root) (hfiles : ∀ i, (host i).HasFiles files)
include hroot hfiles

/-- Every step keeps the runs apart. -/
theorem Abreast.step (h : Abreast settings request root talk stages (files s))
    {stage : Stage σ Manifest.File Manifest} {asked? : Option Asked}
    (hstep : Step (host i) (stages i) s asked? stage s') :
    Abreast settings request root (talk ++ (asked?.map (i, ·)).toList)
      (Function.update stages i stage) (files s') := by
  obtain ⟨hdue, hstands⟩ := (h.stands i).step hstep
  have hstands' (j : ι) : Stands (settings j) (request j)
      (talkOf j (talk ++ (asked?.map (i, ·)).toList)) (Function.update stages i stage j) := by
    rw [Plan.talkOf_append]
    by_cases hj : i = j
    · subst hj
      rw [Plan.talkOf_self, Function.update_self]
      exact hstands
    · rw [Plan.talkOf_of_ne hj, List.append_nil, Function.update_of_ne (Ne.symm hj)]
      exact h.stands j
  rcases hstep.exchange with ⟨rfl, rfl⟩ | ⟨requested, rfl, rfl⟩
  · rw [Option.map_none, Option.toList_none, List.append_nil] at hstands' ⊢
    exact ⟨hstands', h.cleared, h.apart⟩
  · obtain ⟨hapart, hcleared⟩ :=
      h.apart.due (hfiles i) (hroot i) rfl (hdue _ rfl)
    refine ⟨hstands', fun j => ?_, ?_⟩
    · rw [Plan.talkOf_append]
      by_cases hj : i = j
      · subst hj
        rw [Plan.talkOf_self]
        exact hcleared
      · rw [Plan.talkOf_of_ne hj, List.append_nil]
        exact h.cleared j
    · rw [Option.map_some, Option.toList_some, owned_concat]
      exact hapart

/-- Runs that begin side by side are apart at every moment. -/
theorem abreast_of_sideBySide
    (h : SideBySide host (fun i => .planning (plan (settings i) (request i)).run) s₀ talk stages s) :
    Abreast settings request root talk stages (files s) := by
  induction h with
  | nothing =>
    refine ⟨fun i => stands_plan _ _, fun i => cleared_of_unremoved (by simp [Unremoved]), ?_, ?_⟩
    · exact fun i j id hi => absurd hi.1 (not_given_nil _ id)
    · exact fun i id hi => absurd hi.1 (not_given_nil _ id)
  | step _ hstep ih => exact ih.step hroot hfiles hstep

/-- While a run waits, no other changes anything in its directory. -/
theorem Abreast.untouched (h : Abreast settings request root talk stages (files s)) {id : String}
    (hown : owned settings talk i id)
    (hlater : SideBySide host stages s later stages' s') (hwaits : talkOf i later = [])
    (hnames : ∀ j ≠ i, ∀ databases, Chosen (request j) (talkOf j (talk ++ later)) databases →
      ∀ database ∈ databases, '/' ∉ database.toList) :
    Abreast settings request root (talk ++ later) stages' (files s') ∧
      Untouched ((settings i).directory id) (files s) (files s') := by
  have hdirectory : (settings i).directory id = join root id := by
    rw [Settings.directory, hroot]
  rw [hdirectory]
  induction hlater with
  | nothing =>
    obtain ⟨place, base, hbase⟩ := h.apart.beside i id hown
    have hhas := hbase.has ⟨i, hown⟩
    exact ⟨by rwa [List.append_nil], _, hhas, hhas, fun _ _ => rfl⟩
  | @step pre now s₁ j asked? stage s₂ _ hstep ih =>
    rw [Plan.talkOf_append, List.append_eq_nil_iff] at hwaits
    have hnames₁ (k : ι) (hk : k ≠ i) (databases : List String)
        (hchosen : Chosen (request k) (talkOf k (talk ++ pre)) databases) :
        ∀ database ∈ databases, '/' ∉ database.toList := by
      refine hnames k hk databases ?_
      rw [← List.append_assoc, Plan.talkOf_append]
      exact hchosen.concat _
    obtain ⟨habreast, place, hhas, hhas₁, hsame⟩ := ih hwaits.1 hnames₁
    refine ⟨?_, place, hhas, ?_⟩
    · rw [← List.append_assoc]
      exact habreast.step hroot hfiles hstep
    rcases hstep.exchange with ⟨rfl, rfl⟩ | ⟨requested, rfl, rfl⟩
    · exact ⟨hhas₁, hsame⟩
    have hj : i ≠ j := by
      rintro rfl
      rw [Plan.talkOf_self] at hwaits
      cases hwaits.2
    have hown₁ : owned settings (talk ++ pre) i id := by
      rw [owned, Plan.talkOf_append, hwaits.1, List.append_nil]
      exact hown
    obtain ⟨hhas₂, hsame₂⟩ := habreast.apart.untouched (hfiles j) (hroot j) rfl
      (((habreast.stands j).step hstep).1 _ rfl) (hnames₁ j hj.symm) hj hown₁ hhas₁
    exact ⟨hhas₂, fun q hq => (hsame₂ q hq).trans (hsame q hq)⟩

omit hroot hfiles in
theorem Abreast.isOwn (h : Abreast settings request root talk stages (files s)) {path : String}
    (hoccupies : Occupies (talkOf i talk) path) :
    ∃ id, owned settings talk i id ∧ path = (settings i).directory id :=
  hoccupies.owns (h.stands i).searched (h.cleared i)

omit hfiles in
theorem Abreast.open? (h : Abreast settings request root talk stages (files s)) {path : String}
    (hoccupies : Occupies (talkOf i talk) path) : (files s).open? path = .ok .directory := by
  obtain ⟨id, hown, rfl⟩ := h.isOwn hoccupies
  obtain ⟨place, base, hbase⟩ := h.apart.beside i id hown
  rw [Settings.directory, hroot]
  exact (hbase.has ⟨i, hown⟩).open?_eq

theorem Abreast.guarded (htells : ∀ i, TellsCollisions (host i) files)
    (h : Abreast settings request root talk stages (files s))
    {stage : Stage σ Manifest.File Manifest} {asked : Asked}
    (hstep : Step (host i) (stages i) s (some asked) stage s') :
    Guarded (talkOf i talk) asked (files s) (files s') := by
  have hdue := ((h.stands i).step hstep).1 asked rfl
  rcases hstep.exchange with ⟨hno, -⟩ | ⟨requested, heq, rfl⟩
  · cases hno
  obtain rfl := Option.some.inj heq
  refine ⟨fun path hasked => ?_, fun path hasked => ?_, fun path answer hasked => ?_⟩
  · obtain ⟨rfl, hanswer⟩ := Asked.mk.inj hasked
    have hcall := (hfiles i).call (.makeDirectory path) s
    rw [eq_of_heq hanswer] at hcall
    rcases hcall.makeDirectory with ⟨-, place, hfresh, hput⟩ | ⟨⟨_, hno⟩, -⟩
    · rw [hput]
      refine ⟨?_, (hfresh.has hfresh.inside_put).open?_eq⟩
      simp only [Tree.open?, hfresh.resolves, hfresh.free]
    · cases hno
  · obtain ⟨rfl, hanswer⟩ := Asked.mk.inj hasked
    exact htells i path s (eq_of_heq hanswer)
  · obtain ⟨rfl, hanswer⟩ := Asked.mk.inj hasked
    cases hdue with
    | plans hplans =>
      obtain ⟨time, n, -, hplans⟩ := hplans
      exact absurd rfl (hplans.ne_removeTree path)
    | @fills draft hgiven hkept _ hfills =>
      rcases hfills with hdump | hfills
      · exact absurd rfl (hdump.ne path).2
      obtain rfl := hfills.eq_of_removeTree
      have hown : owned settings talk i draft.id := ⟨hgiven, hkept⟩
      obtain ⟨place, base, hbase⟩ := h.apart.beside i draft.id hown
      have hhas := hbase.has ⟨i, hown⟩
      rw [← hroot i] at hhas
      have hcall := (hfiles i).call (.removeTree ((settings i).directory draft.id)) s
      rw [eq_of_heq hanswer] at hcall
      obtain ⟨value, rfl⟩ := hcall.exists_ok
      exact ⟨hown.occupies, _, hhas, (hcall.removeTree hhas).2⟩

omit hroot hfiles in
/-- A backup that was made has its directory, and one that has failed has none. -/
theorem Abreast.ended (h : Abreast settings request root talk stages (files s)) (i : ι) :
    (∀ m, (stages i).result? = some (.ok m) →
      Occupies (talkOf i talk) ((settings i).directory m.id)) ∧
    ∀ fault, (stages i).result? = some (.error fault) → ∀ path, ¬ Occupies (talkOf i talk) path := by
  refine ⟨fun m hm => ?_, fun fault hfault path hoccupies => ?_⟩
  · obtain ⟨hgiven, hkept⟩ := (h.stands i).made hm
    exact Owns.occupies ⟨hgiven, hkept⟩
  · obtain ⟨id, ⟨hgiven, hkept⟩, rfl⟩ := h.isOwn hoccupies
    exact (h.stands i).failed hfault id hgiven hkept

end Runs

/-- Backups that are made side by side never share a directory, in whatever order they take turns and
whatever else they are answered. -/
theorem apart_of_sideBySide {ι : Type} [DecidableEq ι] {host : ι → Host σ}
    {settings : ι → Settings} {request : ι → Request} {files : σ → Tree} {root : String} {s₀ s : σ}
    {talk : List (ι × Asked)} {stages : ι → Plan.Stage σ Manifest.File Manifest}
    (hroot : ∀ i, (settings i).root = root) (hfiles : ∀ i, (host i).HasFiles files)
    (htells : ∀ i, TellsCollisions (host i) files)
    (h : Plan.SideBySide host (fun i => .planning (plan (settings i) (request i)).run) s₀ talk
      stages s) :
    -- Of two that have directories these are there, and have different names.
    (∀ i j a b, i ≠ j → Occupies (Plan.talkOf i talk) ((settings i).directory a) →
      Occupies (Plan.talkOf j talk) ((settings j).directory b) → a ≠ b ∧
        (files s).open? ((settings i).directory a) = .ok .directory ∧
        (files s).open? ((settings j).directory b) = .ok .directory) ∧
    -- One that was made has its directory, and one that has failed has none.
    (∀ i, (∀ m, (stages i).result? = some (.ok m) →
        Occupies (Plan.talkOf i talk) ((settings i).directory m.id)) ∧
      ∀ fault, (stages i).result? = some (.error fault) →
        ∀ path, ¬ Occupies (Plan.talkOf i talk) path) ∧
    -- None is given a directory that was there before, and none removes another's.
    (∀ i asked stage s', Plan.Step (host i) (stages i) s (some asked) stage s' →
      Guarded (Plan.talkOf i talk) asked (files s) (files s')) ∧
    -- As long as one of them waits, nothing is changed in its directory.
    (∀ i path, Occupies (Plan.talkOf i talk) path → ∀ later stages' s',
      Plan.SideBySide host stages s later stages' s' → Plan.talkOf i later = [] →
      (∀ j ≠ i, ∀ databases, Chosen (request j) (Plan.talkOf j (talk ++ later)) databases →
        ∀ database ∈ databases, '/' ∉ database.toList) →
      Untouched path (files s) (files s')) ∧
    -- The search for a name ends with the first that is not taken.
    ∀ i, (collisions (Plan.talkOf i talk)).Nodup ∧
      (tries (Plan.talkOf i talk)).length ≤ (collisions (Plan.talkOf i talk)).length + 1 := by
  have habreast := abreast_of_sideBySide hroot hfiles h
  refine ⟨fun i j a b hij ha hb => ⟨?_, habreast.open? hroot ha, habreast.open? hroot hb⟩,
    habreast.ended, fun i asked stage s' hstep => habreast.guarded hroot hfiles htells hstep,
    fun i path hoccupies later stages' s' hlater hwaits hnames => ?_,
    fun i => (habreast.stands i).searched.bounded⟩
  · rintro rfl
    obtain ⟨c, hown, hc⟩ := habreast.isOwn ha
    obtain ⟨d, hown', hd⟩ := habreast.isOwn hb
    have hcd : join root c = join root d := by
      rw [Settings.directory, Settings.directory, hroot] at hc hd
      exact hc.symm.trans hd
    obtain rfl := Files.Path.join_injOn root hown.1.isName hown'.1.isName hcd
    exact hij (habreast.apart.unique i j c hown hown')
  · obtain ⟨id, hown, rfl⟩ := habreast.isOwn hoccupies
    exact (habreast.untouched hroot hfiles hown hlater hwaits hnames).2

/-! ### Three backups in the same second -/

theorem walk_ne_alreadyExists (t : Tree) (place : Place) (names : List String) :
    t.walk place names ≠ .error (.os .alreadyExists) := by
  induction names generalizing place with
  | nil => simp [Tree.walk]
  | cons name names ih =>
    rw [Scripted.Tree.walk_cons]
    cases hnext : t.next place name with
    | ok p => exact ih p
    | error fault =>
      rintro ⟨⟩
      rw [Scripted.Tree.next] at hnext
      split at hnext
      · cases hnext
      · cases hnext
      · split_ifs at hnext
        cases hnext

theorem resolve_ne_alreadyExists (t : Tree) (path : String) :
    t.resolve path ≠ .error (.os .alreadyExists) := by
  rw [Tree.resolve]
  split_ifs
  · rintro ⟨⟩
  · rintro ⟨⟩
  · rintro ⟨⟩
  · exact walk_ne_alreadyExists t _ _
  · exact walk_ne_alreadyExists t _ _

theorem tellsCollisions_host : TellsCollisions Scripted.host Scripted.World.files := by
  intro path s h
  have hmade : (s.files.makeDirectory path).1 = .error (.os .alreadyExists) := Except.ok.inj h
  rw [Tree.makeDirectory, Tree.edit] at hmade
  rw [Tree.open?]
  cases hplace : s.files.resolve path with
  | error fault =>
    rw [hplace] at hmade
    obtain rfl : fault = .os .alreadyExists := Except.error.inj hmade
    exact absurd hplace (resolve_ne_alreadyExists _ _)
  | ok place =>
    rw [hplace] at hmade
    cases hentry : s.files.at? place with
    | none =>
      simp only [hentry] at hmade
      cases hmade
    | some entry => exact ⟨entry, by simp only [hentry]⟩

/-- What is backed up three times at once. -/
def abreast : Fin 3 → Request := ![{ databases := ["shop"] }, { databases := ["crm"] }, shopAndCrm]

/-- The first two get names of their own, and the third, which fails, leaves them theirs. -/
theorem apart_of_sameSecond : ∃ talk stages w m m' fault,
    Plan.SideBySide (fun _ : Fin 3 => Scripted.host)
      (fun i => .planning (plan oneByOne (abreast i)).run) (crowded [] 5 emptyRoot) talk stages w ∧
    (stages 0).result? = some (.ok m) ∧ (stages 1).result? = some (.ok m') ∧
    (stages 2).result? = some (.error fault) ∧ m.id ≠ m'.id ∧
    w.files.open? (oneByOne.directory m.id) = .ok .directory ∧
    w.files.open? (oneByOne.directory m'.id) = .ok .directory ∧
    ∀ path, ¬ Occupies (Plan.talkOf 2 talk) path := by
  generalize hw : crowded [] 5 emptyRoot = w
  generalize hfirst : create Scripted.host oneByOne (abreast 0) w = first
  generalize hsecond : create Scripted.host oneByOne (abreast 1) first.2 = second
  generalize hthird : create Scripted.host oneByOne (abreast 2) second.2 = third
  have hends : ends first.1 = some true ∧ ends second.1 = some true ∧ ends third.1 = some false := by
    subst hthird hsecond hfirst hw
    decide +kernel
  obtain ⟨m, hm⟩ := exists_value hends.1
  obtain ⟨m', hm'⟩ := exists_value hends.2.1
  obtain ⟨fault, hfault⟩ := exists_fault hends.2.2
  have hnext (stages : Fin 3 → Plan.Stage Scripted.World Manifest.File Manifest)
      {s : Scripted.World} {i : Fin 3} {result : Except Fault Manifest}
      {made : Except String (Except Fault Manifest) × Scripted.World}
      (hmade : create Scripted.host oneByOne (abreast i) s = made) (hresult : made.1 = .ok result)
      (hnow : stages i = .planning (plan oneByOne (abreast i)).run) :
      ∃ (asked : List Asked) (stage : Plan.Stage Scripted.World Manifest.File Manifest),
        Plan.SideBySide (fun _ : Fin 3 => Scripted.host) stages s (asked.map (i, ·))
          (Function.update stages i stage) made.2 ∧ stage.result? = some result := by
    refine Plan.CarriesOut.sideBySide hnow ?_
    rw [← hresult, ← hmade]
    exact Plan.carriesOut_carryOut _ _ _
  let start : Fin 3 → Plan.Stage Scripted.World Manifest.File Manifest :=
    fun i => .planning (plan oneByOne (abreast i)).run
  obtain ⟨talk₁, stage₁, hside₁, hstage₁⟩ := hnext start hfirst hm rfl
  obtain ⟨talk₂, stage₂, hside₂, hstage₂⟩ :=
    hnext (Function.update start 0 stage₁) hsecond hm' rfl
  obtain ⟨talk₃, stage₃, hside₃, hstage₃⟩ :=
    hnext (Function.update (Function.update start 0 stage₁) 1 stage₂) hthird hfault rfl
  have hside := (hside₁.trans hside₂).trans hside₃
  obtain ⟨hdiffer, hended, -⟩ := apart_of_sideBySide (fun _ => rfl)
    (fun _ => Scripted.hasFiles_host) (fun _ => tellsCollisions_host) hside
  obtain ⟨hid, hthere, hthere'⟩ := hdiffer 0 1 m.id m'.id (by decide)
    ((hended 0).1 m hstage₁) ((hended 1).1 m' hstage₂)
  exact ⟨_, _, third.2, m, m', fault, hside, hstage₁, hstage₂, hstage₃, hid, hthere, hthere',
    (hended 2).2 fault hstage₃⟩

end Backup

end SqlBackup
