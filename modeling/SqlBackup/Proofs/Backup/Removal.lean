import Mathlib
import SqlBackup.Proofs.Backup.Listing

/-!
# Backups whose removal stops

The removal of a directory can stop at any of its entries, and by then others are gone. What is told
of a backup depends on its manifest alone, so that it depends on the order of the removal what becomes
of the backup: as long as the manifest is there the backup is told of, with whichever of its dumps are
left. It is whole or not there at every moment only if the manifest goes before the dumps. All other
backups stay as they are.
-/
namespace SqlBackup

open Files.Path (IsName join)
open Scripted (Tree Place World)
open Scripted.Tree (Answers Has LeadsTo Thinned Torn leadsTo_join thinned_foldl_prune)

/-! ### Hosts on which a removal can stop -/

/-- What a tree can answer to a call, and what it is then, where the removal of a directory can stop
at any entry. -/
inductive Scripted.Tree.Replies (t : Tree) :
    (call : Files.Call) → Except String call.Reply → Tree → Prop
  | answers {call : Files.Call} {reply : Except String call.Reply} {u : Tree}
      (h : t.Answers call reply u) : Replies t call reply u
  | stopped {path : String} {u : Tree} (fault : IoFault) (h : t.Torn (.removeTree path) u) :
      Replies t (.removeTree path) (.ok (.error fault)) u

/-- The files of a host are this tree, and the removal of a directory can stop at any entry. -/
structure Host.MayStop {σ : Type} (host : Host σ) (files : σ → Tree) : Prop where
  silent : ∀ request s, (∀ call, request ≠ .file call) →
    files (host.answer request s).2 = files s
  call : ∀ call s, (files s).Replies call (host.answer (.file call) s).1.reply
    (files (host.answer (.file call) s).2)

namespace Scripted.Tree

variable {t u : Tree} {place other : Place} {places : List Place} {path : String}

theorem Replies.answers_of_looks {call : Files.Call} {reply : Except String call.Reply}
    (h : t.Replies call reply u) (hcall : call.Looks) : t.Answers call reply u := by
  cases h with
  | answers h => exact h
  | stopped => cases hcall

theorem Replies.exists_ok {call : Files.Call} {reply : Except String call.Reply}
    (h : t.Replies call reply u) : ∃ value, reply = .ok value := by
  cases h with
  | answers h => exact h.exists_ok
  | stopped => exact ⟨_, rfl⟩

/-- Whether what is at a place goes with one of these places. -/
def Taken (places : List Place) (other : Place) : Prop := ∃ p ∈ places, p <+: other

instance (places : List Place) (other : Place) : Decidable (Taken places other) :=
  inferInstanceAs (Decidable (∃ p ∈ places, p <+: other))

theorem Taken.below (h : Taken places place) (hbelow : place <+: other) : Taken places other := by
  obtain ⟨p, hp, hprefix⟩ := h
  exact ⟨p, hp, hprefix.trans hbelow⟩

/-- What is taken is gone, and nothing else is. -/
theorem at?_foldl_prune (hne : other ≠ []) :
    (places.foldl prune t).at? other = if Taken places other then none else t.at? other := by
  induction places generalizing t with
  | nil => simp [Taken]
  | cons p places ih =>
    rw [List.foldl_cons, ih]
    by_cases hrest : Taken places other
    · have hall : Taken (p :: places) other := by
        obtain ⟨q, hq, hprefix⟩ := hrest
        exact ⟨q, List.mem_cons_of_mem _ hq, hprefix⟩
      rw [if_pos hrest, if_pos hall]
    rw [if_neg hrest]
    by_cases hp : p <+: other
    · rw [if_pos ⟨p, List.mem_cons_self, hp⟩, at?_prune_below hp hne]
    · have hnone : ¬ Taken (p :: places) other := by
        rintro ⟨q, hq, hprefix⟩
        rcases List.mem_cons.mp hq with rfl | hq
        · exact hp hprefix
        · exact hrest ⟨q, hq, hprefix⟩
      rw [if_neg hnone, at?_prune_of_not_prefix hp]

theorem Thinned.mem_namesAt {name : String} (h : Thinned place t u) (hname : name ∈ u.namesAt other) :
    name ∈ t.namesAt other := by
  obtain ⟨entry, hentry⟩ := Tree.mem_namesAt.mp hname
  refine Tree.mem_namesAt.mpr (Option.ne_none_iff_exists'.mp fun hfree => ?_)
  rw [h.free _ hfree] at hentry
  cases hentry

/-- What removing a directory comes to: some of what is in it is gone, and all of it if the removal
succeeds. -/
theorem Replies.removeTree {answer : Except IoFault Unit}
    (h : t.Replies (.removeTree path) (.ok answer) u) (hhas : t.Has path place) :
    ∃ places : List Place, (∀ p ∈ places, place <+: p) ∧ u = places.foldl prune t ∧
      (answer = .ok () → place ∈ places) := by
  generalize hreply : (Except.ok answer :
    Except String (Files.Call.Reply (.removeTree path))) = reply at h
  cases h with
  | answers h =>
    subst hreply
    obtain ⟨-, hpruned⟩ := h.removeTree hhas
    exact ⟨[place], by simp, hpruned, by simp⟩
  | stopped fault h =>
    obtain rfl := Except.ok.inj hreply
    cases h with
    | removeTree places hplace hbelow =>
      obtain rfl := Except.ok.inj (hplace.symm.trans hhas.resolves)
      exact ⟨places, hbelow, rfl, by simp⟩

end Scripted.Tree

theorem Host.MayStop.still {σ : Type} {host : Host σ} {files : σ → Tree} (h : host.MayStop files) :
    host.Still files :=
  fun call s hcall => ((h.call call s).answers_of_looks hcall).looks hcall

namespace Backup

open Scripted.Tree (Taken at?_foldl_prune)

variable {σ : Type} {host : Host σ} {files : σ → Tree} {s : σ} {base t u : Tree} {place : Place}
  {places : List Place} {settings : Settings} {events : List Event} {live : List Manifest}
  {m : Manifest} {id name : String} {result : Except Fault Unit}

/-! ### What is left of the backups -/

/-- The places of the files of a backup. -/
def filePlace (place : Place) (id filename : String) : Place := place ++ [id] ++ [filename]

/-- The backups that are told of when these places have been removed from the directory of a name:
all others, and that one if its manifest is left. -/
def leftOf (live : List Manifest) (place : Place) (id : String) (places : List Place) :
    List Manifest :=
  live.filter fun m => m.id != id || !decide (Taken places (filePlace place id Manifest.filename))

theorem mem_leftOf : m ∈ leftOf live place id places ↔
    m ∈ live ∧ (m.id = id → ¬ Taken places (filePlace place id Manifest.filename)) := by
  simp [leftOf, or_iff_not_imp_left]

/-- Where the directory itself is taken, the backup of its name is not told of. -/
theorem leftOf_of_mem (h : place ++ [id] ∈ places) :
    leftOf live place id places = live.filter (·.id != id) := by
  have htaken : Taken places (filePlace place id Manifest.filename) :=
    ⟨_, h, List.prefix_append _ _⟩
  simp [leftOf, htaken]

namespace Catalogue

variable (hbase : base.HasEmpty settings.root place)
  (h : Catalogue base settings.root place live t) (hbelow : ∀ p ∈ places, place ++ [id] <+: p)
include hbase h hbelow

/-- A backup of another name is what it was. -/
theorem kept_foldl_prune (hm : m ∈ live) (hne : m.id ≠ id) :
    Kept settings.root place m (places.foldl Tree.prune t) := by
  have hthinned : Thinned (place ++ [id]) t _ := thinned_foldl_prune hbelow
  exact (h.kept m hm).congr (h.has hbase) (h.has_of_agreeOff hbase hthinned.agree) fun rest =>
    hthinned.agree _ (not_prefix_of_ne hne rest)

theorem has_root_foldl_prune : (places.foldl Tree.prune t).Has settings.root place :=
  h.has_of_agreeOff hbase (thinned_foldl_prune hbelow : Thinned (place ++ [id]) t _).agree

/-- The directory of a backup is there as long as one of its files is not taken. -/
theorem has_foldl_prune (hm : m ∈ live) (hid : m.id = id) {filename : String}
    (hleft : ¬ Taken places (filePlace place id filename)) :
    (places.foldl Tree.prune t).Has (settings.directory m.id) (place ++ [m.id]) := by
  subst hid
  have hkept := h.kept m hm
  have hroot := h.has_root_foldl_prune hbase hbelow
  have hdirectory : ¬ Taken places (place ++ [m.id]) :=
    fun htaken => hleft (htaken.below (List.prefix_append _ _))
  refine ⟨?_, ?_⟩
  · exact ((h.has hbase).resolve_join_congr hroot hkept.named.isName).trans hkept.has.resolves
  · rw [at?_foldl_prune (by simp), if_neg hdirectory]
    exact hkept.has.isThere

/-- A file of a backup is what it was if it is not taken. -/
theorem open?_foldl_prune (hm : m ∈ live) (hid : m.id = id) {filename : String}
    (hname : IsName filename) (hleft : ¬ Taken places (filePlace place id filename)) :
    (places.foldl Tree.prune t).open? (join (settings.directory m.id) filename) =
      t.open? (join (settings.directory m.id) filename) := by
  refine (h.kept m hm).has.open?_congr (h.has_foldl_prune hbase hbelow hm hid hleft) hname ?_
  subst hid
  rw [at?_foldl_prune (by simp)]
  exact if_neg hleft

/-- A file of a backup is gone if it is taken. -/
theorem open?_of_taken (hm : m ∈ live) (hid : m.id = id) {filename : String}
    (hname : IsName filename) (htaken : Taken places (filePlace place id filename))
    (entry : Files.Entry) :
    (places.foldl Tree.prune t).open? (join (settings.directory m.id) filename) ≠ .ok entry := by
  subst hid
  have hroot := h.has_root_foldl_prune hbase hbelow
  have hisName := (h.kept m hm).named.isName
  have hleads := (leadsTo_join hroot.resolves hisName).join
    (isDirectory_of_isName settings.root hisName) hname
  refine open?_ne_ok_of_free hleads ?_ entry
  rw [at?_foldl_prune (by simp)]
  exact if_pos htaken

/-- The manifests that are there then. -/
theorem visible_leftOf :
    Visible settings.root place (leftOf live place id places) (places.foldl Tree.prune t) := by
  have hthinned : Thinned (place ++ [id]) t (places.foldl Tree.prune t) :=
    thinned_foldl_prune hbelow
  have hname : ∀ m, m.id = id → m ∈ leftOf live place id places →
      ¬ Taken places (filePlace place id Manifest.filename) :=
    fun m hid hm => (mem_leftOf.mp hm).2 hid
  constructor
  case has => exact h.has_root_foldl_prune hbase hbelow
  case nodup => exact Scripted.Tree.nodup_namesAt_foldl_prune h.nodup places
  case names => exact fun name hname => h.names name (hthinned.mem_namesAt hname)
  case ids => exact h.ids.sublist (List.filter_sublist.map _)
  case directory =>
    intro m hm
    have hlive := (mem_leftOf.mp hm).1
    by_cases hid : m.id = id
    · exact h.has_foldl_prune hbase hbelow hlive hid (hname m hid hm)
    · exact (h.kept_foldl_prune hbase hbelow hlive hid).has
  case stored =>
    intro m hm
    have hlive := (mem_leftOf.mp hm).1
    by_cases hid : m.id = id
    · exact (h.open?_foldl_prune hbase hbelow hlive hid Manifest.isName_filename
        (hname m hid hm)).trans (h.kept m hlive).stored
    · exact (h.kept_foldl_prune hbase hbelow hlive hid).stored
  case hidden =>
    intro name hother
    by_cases hthere : ∃ m ∈ live, m.id = name
    · obtain ⟨m, hm, rfl⟩ := hthere
      have hgone : m ∉ leftOf live place id places := fun hleft => hother m hleft rfl
      rw [mem_leftOf] at hgone
      push Not at hgone
      obtain ⟨rfl, htaken⟩ := hgone hm
      rw [at?_foldl_prune (by simp)]
      exact if_pos htaken
    · push Not at hthere
      exact hthinned.free _ (h.hidden name hthere)

end Catalogue

/-! ### Deleting -/

/-- The dumps of a backup are as its manifest says. -/
def Whole (settings : Settings) (m : Manifest) (t : Tree) : Prop :=
  ∀ f ∈ m.files, f.Records (t.open? (join (settings.directory m.id) f.filename))

/-- What comes of deleting a backup. Of what was in its directory, these places are gone. -/
structure Removal (host : Host σ) (files : σ → Tree) (settings : Settings) (live : List Manifest)
    (id : String) (t u : Tree) (result : Except Fault Unit) (place : Place) (places : List Place) :
    Prop where
  root : t.Has settings.root place
  below : ∀ p ∈ places, place ++ [id] <+: p
  removed : u = places.foldl Tree.prune t
  /-- The whole directory is gone if nothing is reported, and the manifest with it. -/
  complete : result = .ok () →
    place ++ [id] ∈ places ∧ leftOf live place id places = live.filter (·.id != id)
  /-- Only what the removal of the directory reports can leave a part of it. -/
  refused : ∀ fault, result = .error fault →
    (∀ cause, fault ≠ .io (settings.directory id) cause) → places = []
  /-- The backup is told of if its manifest is left, and so are all others. -/
  list : ∀ s, files s = u → host.Tells files u → ∃ found,
    ((list settings).run.run host s).1.result = .ok (.ok found) ∧
      found.Perm (leftOf live place id places)
  get : ∀ s, files s = u → host.Tells files u → ∀ name,
    ((get settings name).run.run host s).1.result = .ok (told (leftOf live place id places) name)
  others : ∀ m ∈ live, m.id ≠ id → Whole settings m u
  /-- Each dump of the backup is as it was, or gone. -/
  left : ∀ m ∈ live, m.id = id → ∀ f ∈ m.files,
    ¬ Taken places (filePlace place id f.filename) →
      f.Records (u.open? (join (settings.directory m.id) f.filename))
  gone : ∀ m ∈ live, m.id = id → ∀ f ∈ m.files, Taken places (filePlace place id f.filename) →
    ∀ entry, u.open? (join (settings.directory m.id) f.filename) ≠ .ok entry
  /-- The backup is whole or not told of exactly if none of its dumps has gone before its manifest. -/
  whole : ∀ m ∈ live, m.id = id →
    ((m ∈ leftOf live place id places → Whole settings m u) ↔
      ((∃ f ∈ m.files, Taken places (filePlace place id f.filename)) →
        Taken places (filePlace place id Manifest.filename)))

theorem Catalogue.removal (hbase : base.HasEmpty settings.root place)
    (h : Catalogue base settings.root place live t) (hsound : ∀ m ∈ live, m.Sound)
    (hstill : host.Still files) (hbelow : ∀ p ∈ places, place ++ [id] <+: p)
    (hcomplete : result = .ok () → place ++ [id] ∈ places)
    (hrefused : ∀ fault, result = .error fault →
      (∀ cause, fault ≠ .io (settings.directory id) cause) → places = []) :
    Removal host files settings live id t (places.foldl Tree.prune t) result place places := by
  have hvisible := h.visible_leftOf hbase hbelow
  have hsounds : ∀ m ∈ leftOf live place id places, m.Sound :=
    fun m hm => hsound m (mem_leftOf.mp hm).1
  have hleft : ∀ m ∈ live, m.id = id → ∀ f ∈ m.files,
      ¬ Taken places (filePlace place id f.filename) →
        f.Records ((places.foldl Tree.prune t).open?
          (join (settings.directory m.id) f.filename)) := by
    intro m hm hid f hf hleft
    rw [h.open?_foldl_prune hbase hbelow hm hid ((h.kept m hm).names f hf) hleft]
    exact (h.kept m hm).records f hf
  have hgone : ∀ m ∈ live, m.id = id → ∀ f ∈ m.files,
      Taken places (filePlace place id f.filename) → ∀ entry,
        (places.foldl Tree.prune t).open? (join (settings.directory m.id) f.filename) ≠
          .ok entry :=
    fun m hm hid f hf htaken => h.open?_of_taken hbase hbelow hm hid ((h.kept m hm).names f hf) htaken
  constructor
  case root => exact h.has hbase
  case below => exact hbelow
  case removed => rfl
  case complete => exact fun hok => ⟨hcomplete hok, leftOf_of_mem (hcomplete hok)⟩
  case refused => exact hrefused
  case list =>
    intro s hs htells
    obtain ⟨result, hresult, found, rfl, hfound⟩ :=
      (hvisible.succeeds_list hstill htells hs hsounds).run
    exact ⟨found, hresult, hfound⟩
  case get =>
    intro s hs htells name
    obtain ⟨result, hresult, rfl⟩ := (hvisible.ends_get hstill htells hs hsounds name).run
    exact hresult
  case others => exact fun m hm hne => (h.kept_foldl_prune hbase hbelow hm hne).records
  case left => exact hleft
  case gone => exact hgone
  case whole =>
    refine fun m hm hid => ⟨fun hwhole ⟨f, hf, htaken⟩ => ?_, fun hfirst hmem f hf => ?_⟩
    · -- the dump is gone, so that the backup is not whole and cannot be told of
      by_contra hmanifest
      obtain ⟨bytes, hbytes, -⟩ := hwhole (mem_leftOf.mpr ⟨hm, fun _ => hmanifest⟩) f hf
      exact hgone m hm hid f hf htaken _ hbytes
    · refine hleft m hm hid f hf fun htaken => ?_
      exact (mem_leftOf.mp hmem).2 hid (hfirst ⟨f, hf, htaken⟩)

section Deleting

variable (hstops : host.MayStop files)
include hstops

/-- What is told of what a path names. -/
theorem ends_kindOf (path : String) : (kindOf path).run.Ends host s fun result s' =>
    ∃ kind, result = .ok kind ∧ files s' = files s ∧
      (kind = some .directory → ∃ p, (files s).Has path p) := by
  have hcall := (hstops.call (.kind path) s).answers_of_looks (.kind path)
  obtain ⟨kind, hkind⟩ := hcall.exists_ok
  refine Work.succeeds_ofJob (Job.ends_request hkind ⟨hcall.looks (.kind path), ?_⟩)
  rintro rfl
  rw [hkind] at hcall
  exact hcall.exists_has

/-- Wherever the removal stops, deleting a backup comes to an end. -/
theorem Catalogue.ends_delete (hbase : base.HasEmpty settings.root place)
    (h : Catalogue base settings.root place live (files s)) (hsound : ∀ m ∈ live, m.Sound)
    (id : String) : (delete settings id).run.Ends host s fun result s' =>
      ∃ places, Removal host files settings live id (files s) (files s') result place places := by
  have hstill := hstops.still
  -- what is refused changes nothing
  have hrefused (fault : Fault) : ∃ places, Removal host files settings live id (files s) (files s)
      (.error fault) place places := by
    have hbelow : ∀ p ∈ ([] : List Place), place ++ [id] <+: p := by simp
    exact ⟨[], h.removal hbase hsound hstill hbelow (by simp) (by simp)⟩
  rw [delete, requireName]
  cases hid : isName id with
  | false => exact hrefused _
  | true =>
    have hname := isFileName_of_isName hid
    simp only [if_true, Work.ofResult_bind]
    rw [Work.run_bind_eq, Job.ends_bind]
    refine (ends_kindOf hstops _).mono ?_
    rintro _ s₁ ⟨kind, rfl, hsame, hkind⟩
    simp only [Work.after]
    split
    · next hdirectory =>
      obtain ⟨p, hhas⟩ := hkind (eq_of_beq hdirectory)
      obtain rfl := leadsTo_join (h.has hbase).resolves hname p hhas.resolves
      have hcall := hstops.call (.removeTree (settings.directory id)) s₁
      rw [hsame] at hcall
      obtain ⟨answer, hanswer⟩ := hcall.exists_ok
      rw [hanswer] at hcall
      obtain ⟨places, hbelow, hremoved, hcomplete⟩ := hcall.removeTree hhas
      show Job.Ends host ((Job.file _).bind _) s₁ _
      rw [Job.ends_bind]
      refine Job.ends_request hanswer ⟨places, ?_⟩
      rw [hremoved]
      refine h.removal hbase hsound hstill hbelow ?_ ?_
      · rcases answer with fault | value
        · intro hok
          cases hok
        · exact fun _ => hcomplete rfl
      · rcases answer with cause | value
        · rintro fault hfault hother
          cases hfault
          exact absurd rfl (hother cause)
        · rintro fault hfault
          cases hfault
    · show ∃ places, Removal host files settings live id (files s) (files s₁)
        (.error (.backupNotFound id)) place places
      rw [hsame]
      exact hrefused _

end Deleting

/-- Wherever the removal of its directory stops, deleting a backup comes to an end, and what is told of
the backup then depends on its manifest: it is told of with whichever of its dumps are left, until the
manifest goes. It is whole or not told of exactly if no dump goes before the manifest. All other
backups are whole and told of. -/
theorem removal_of_log {τ : Type} {maker : Host τ} {written : τ → Tree}
    (hfiles : maker.HasFiles written) (hstops : host.MayStop files)
    (h : Log maker written settings.root events (files s))
    (hsound : ∀ m ∈ present events, m.Sound) (id : String) :
    ∃ result place places, ((delete settings id).run.run host s).1.result = .ok result ∧
      Removal host files settings (present events) id (files s)
        (files ((delete settings id).run.run host s).2) result place places := by
  obtain ⟨-, base, place, hbase, hcatalogue⟩ := h.catalogue hfiles
  obtain ⟨result, hresult, places, hremoval⟩ :=
    (hcatalogue.ends_delete hstops hbase hsound id).run
  exact ⟨result, place, places, hresult, hremoval⟩

/-- A scripted host on which the removal of a directory stops for want of permission, when these names
in it are gone. -/
def stopping (names : List String) : Host World where
  answer request w :=
    match request with
    | .file (.removeTree path) =>
        match w.files.resolve path with
        | .ok place =>
            ({ reply := .ok (.error (.os .permissionDenied)) },
              { w with files := (names.map fun name => place ++ [name]).foldl Tree.prune w.files })
        | .error _ => World.answer (.file (.removeTree path)) w
    | request => World.answer request w

theorem mayStop_stopping (names : List String) : (stopping names).MayStop World.files where
  silent request w h := by
    cases request with
    | file call => exact absurd rfl (h call)
    | _ => rfl
  call call w := by
    cases call with
    | removeTree path =>
      simp only [stopping]
      split
      · next place hplace =>
        refine .stopped _ (.removeTree _ hplace fun other hother => ?_)
        obtain ⟨name, -, rfl⟩ := List.mem_map.mp hother
        exact List.prefix_append place [name]
      · exact .answers (.done _)
    | _ => exact .answers (.done _)

theorem tells_stopping (names : List String) (t : Tree) : (stopping names).Tells World.files t := by
  rintro call w (_ | _ | _) rfl <;> rfl

/-- The removal of a directory stops there, and what is reported of it is reported of the deletion. -/
theorem delete_stopping {w : World} (names : List String) (hid : isName id = true)
    (hhas : w.files.Has (settings.directory id) place) :
    ((delete settings id).run.run (stopping names) w).1.result =
        .ok (.error (.io (settings.directory id) (.os .permissionDenied))) ∧
      ((delete settings id).run.run (stopping names) w).2.files =
        (names.map fun name => place ++ [name]).foldl Tree.prune w.files := by
  have hends : (delete settings id).run.Ends (stopping names) w fun result w' =>
      result = .error (.io (settings.directory id) (.os .permissionDenied)) ∧
        w'.files = (names.map fun name => place ++ [name]).foldl Tree.prune w.files := by
    have hkind : (w.files.call (.kind (settings.directory id))).1 = some Files.Kind.directory :=
      congrArg (fun entry => entry.toOption.map Files.Entry.kind) hhas.open?_eq
    have hremove : (stopping names).answer (.file (.removeTree (settings.directory id))) w =
        ({ reply := .ok (.error (.os .permissionDenied)) },
          { w with files := (names.map fun name => place ++ [name]).foldl Tree.prune w.files }) := by
      simp only [stopping, hhas.resolves]
    rw [delete, requireName, hid]
    simp only [if_true, Work.ofResult_bind]
    rw [Work.run_bind_eq, Job.ends_bind]
    have hasked : (kindOf (settings.directory id)).Succeeds (stopping names) w fun kind w' =>
        kind = some .directory ∧ w' = w :=
      Work.succeeds_ofJob (Job.ends_request (congrArg Except.ok hkind) ⟨rfl, rfl⟩)
    refine Job.Ends.mono hasked ?_
    rintro _ _ ⟨_, rfl, rfl, rfl⟩
    show Job.Ends (stopping names) ((Job.file _).bind _) _ _
    rw [Job.ends_bind]
    exact Job.ends_request (congrArg (·.1.reply) hremove) ⟨rfl, congrArg (·.2.files) hremove⟩
  obtain ⟨result, hresult, rfl, hfiles⟩ := hends.run
  exact ⟨hresult, hfiles⟩

/-- A world in which a backup of one database has been made. -/
theorem exists_shop : ∃ talk m w,
    create Scripted.host oneByOne shopOnly (waiting march ⟨[(["b"], .directory)]⟩) =
      (.ok (.ok m), w) ∧
    Log Scripted.host World.files oneByOne.root [.created talk (some m)] w.files ∧
    present [.created talk (some m)] = [m] ∧ m.Sound ∧ isName m.id = true ∧
    m.files.map (·.filename) = ["shop.sql"] := by
  generalize hmade : create Scripted.host oneByOne shopOnly
    (waiting march ⟨[(["b"], .directory)]⟩) = r
  have hshop : (made? r.1).map (fun m => (isName m.id, m.files.map (·.filename))) =
      some (true, ["shop.sql"]) ∧ ∀ m ∈ made? r.1, m.Sound := by
    subst hmade
    decide +kernel
  obtain ⟨m, hm, hnames⟩ := Option.map_eq_some_iff.mp hshop.1
  obtain ⟨hid, hfilenames⟩ := Prod.mk.inj hnames
  obtain ⟨talk, hlog, hpresent, -⟩ := exists_log_create (.empty hasEmpty_waiting)
    (hmade.trans (eq_of_made? hm))
  exact ⟨talk, m, r.2, eq_of_made? hm, hlog, hpresent, hshop.2 m hm, hid, hfilenames⟩

/-- The removal of a backup stops behind its manifest. -/
theorem removal_of_shop : ∃ talk m w result place places,
    Scripted.host.HasFiles World.files ∧ (stopping [Manifest.filename]).MayStop World.files ∧
    Log Scripted.host World.files oneByOne.root [.created talk (some m)] w.files ∧
    present [.created talk (some m)] = [m] ∧
    ((delete oneByOne m.id).run.run (stopping [Manifest.filename]) w).1.result = .ok result ∧
    Removal (stopping [Manifest.filename]) World.files oneByOne [m] m.id w.files
      ((delete oneByOne m.id).run.run (stopping [Manifest.filename]) w).2.files result place
      places := by
  obtain ⟨talk, m, w, -, hlog, hpresent, hsound, -⟩ := exists_shop
  have hsounds : ∀ found ∈ present [.created talk (some m)], found.Sound := by
    rw [hpresent]
    exact List.forall_mem_singleton.mpr hsound
  have hstops := mayStop_stopping [Manifest.filename]
  obtain ⟨result, place, places, hresult, hremoval⟩ :=
    removal_of_log Scripted.hasFiles_host hstops hlog hsounds m.id
  rw [hpresent] at hremoval
  exact ⟨talk, m, w, result, place, places, Scripted.hasFiles_host, hstops, hlog, hpresent, hresult,
    hremoval⟩

/-- The removal of a backup stops behind its dump: the backup is still listed and got, but its dump is
gone. -/
theorem listed_of_stopped : ∃ m w w',
    create Scripted.host oneByOne shopOnly (waiting march ⟨[(["b"], .directory)]⟩) =
      (.ok (.ok m), w) ∧
    (stopping ["shop.sql"]).MayStop World.files ∧
    ((delete oneByOne m.id).run.run (stopping ["shop.sql"]) w).1.result =
      .ok (.error (.io (oneByOne.directory m.id) (.os .permissionDenied))) ∧
    ((delete oneByOne m.id).run.run (stopping ["shop.sql"]) w).2 = w' ∧
    ((list oneByOne).run.run (stopping ["shop.sql"]) w').1.result = .ok (.ok [m]) ∧
    ((get oneByOne m.id).run.run (stopping ["shop.sql"]) w').1.result = .ok (.ok m) ∧
    m.files.map (·.filename) = ["shop.sql"] ∧
    ∀ entry, w'.files.open? (join (oneByOne.directory m.id) "shop.sql") ≠ .ok entry := by
  obtain ⟨talk, m, w, hcreate, hlog, hpresent, hsound, hid, hfilenames⟩ := exists_shop
  obtain ⟨-, base, place, hbase, hcatalogue⟩ := hlog.catalogue Scripted.hasFiles_host
  rw [hpresent] at hcatalogue
  have hm : m ∈ [m] := List.mem_singleton_self m
  have hname : IsName "shop.sql" := ⟨by decide, by decide, by decide, by decide⟩
  obtain ⟨hdelete, hfiles⟩ := delete_stopping ["shop.sql"] hid
    (hcatalogue.kept m hm).has
  generalize hafter : ((delete oneByOne m.id).run.run (stopping ["shop.sql"]) w).2 = w' at hfiles
  replace hfiles : w'.files = [filePlace place m.id "shop.sql"].foldl Tree.prune w.files := hfiles
  -- one place has been taken, and it is not that of the manifest
  have hbelow : ∀ p ∈ [filePlace place m.id "shop.sql"], place ++ [m.id] <+: p :=
    List.forall_mem_singleton.mpr (List.prefix_append _ _)
  have hdump : Taken [filePlace place m.id "shop.sql"] (filePlace place m.id "shop.sql") :=
    ⟨_, List.mem_singleton_self _, List.prefix_rfl⟩
  have hmanifest : ¬ Taken [filePlace place m.id "shop.sql"]
      (filePlace place m.id Manifest.filename) := by
    simp [Taken, filePlace, Manifest.filename]
  have hleft : leftOf [m] place m.id [filePlace place m.id "shop.sql"] = [m] :=
    List.filter_eq_self.mpr fun found _ => by rw [decide_eq_false hmanifest]; simp
  have hvisible := hcatalogue.visible_leftOf hbase hbelow
  rw [hleft, ← hfiles] at hvisible
  have hstill := (mayStop_stopping ["shop.sql"]).still
  have hsounds : ∀ found ∈ [m], found.Sound := List.forall_mem_singleton.mpr hsound
  obtain ⟨result, hlisted, found, rfl, hfound⟩ :=
    (hvisible.succeeds_list hstill (tells_stopping _ _) rfl hsounds).run
  obtain ⟨result, hgot, rfl⟩ :=
    (hvisible.ends_get hstill (tells_stopping _ _) rfl hsounds m.id).run
  rw [List.perm_singleton.mp hfound] at hlisted
  have htold : told [m] m.id = .ok m := by simp [told, hid, named?]
  rw [htold] at hgot
  refine ⟨m, w, w', hcreate, mayStop_stopping _, hdelete, hafter, hlisted, hgot, hfilenames,
    fun entry => ?_⟩
  rw [hfiles]
  exact hcatalogue.open?_of_taken hbase hbelow hm rfl hname hdump entry

end Backup

end SqlBackup
