import Mathlib
import SqlBackup.Proofs.Scripted.Walk

/-!
# What calls on files change

A call on a file changes the tree at most where its path leads. The paths of the files in a
directory lead to places of their own, and do so as long as the directory is there. The directory
lists the names of what stands directly below its place, and no call makes it list one of them
twice.
-/
namespace SqlBackup

/-- A call on the file at a path, and on nothing else. -/
inductive Files.Call.IsOn (path : String) : Files.Call → Prop
  | kind : IsOn path (.kind path)
  | read : IsOn path (.read path)
  | size : IsOn path (.size path)
  | create : IsOn path (.create path)
  | append (bytes : List UInt8) : IsOn path (.append path bytes)
  | sync : IsOn path (.sync path)
  | remove : IsOn path (.remove path)

namespace Scripted.Tree

open Files.Path (IsName join)

variable {t u : Tree} {place other : Place} {path directory name : String}

/-- A path leads to this place or nowhere. -/
def LeadsTo (t : Tree) (path : String) (place : Place) : Prop :=
  ∀ p, t.resolve path = .ok p → p = place

section Edit

variable {change : Place → Option Files.Entry → Except OsFault Tree}

theorem edit_eq_ok (h : t.edit path change = (.ok (), u)) :
    ∃ p, t.resolve path = .ok p ∧ change p (t.at? p) = .ok u := by
  rw [edit] at h
  split at h
  · cases h
  · next p hp =>
    split at h
    · cases h
    · next hchange =>
      cases h
      exact ⟨p, hp, hchange⟩

theorem edit_eq_error {fault : IoFault} (h : t.edit path change = (.error fault, u)) : u = t := by
  rw [edit] at h
  split at h
  · cases h
    rfl
  · split at h
    · cases h
      rfl
    · cases h

/-- What an edit keeps where its change does, it keeps. -/
theorem edit_keeps (kept : Tree → Prop) (hsame : kept t)
    (hchange : ∀ p v, t.resolve path = .ok p → change p (t.at? p) = .ok v → kept v) :
    kept (t.edit path change).2 := by
  rcases hedit : t.edit path change with ⟨_ | ⟨⟩, u⟩
  · rw [edit_eq_error hedit]
    exact hsame
  · obtain ⟨p, hp, hp'⟩ := edit_eq_ok hedit
    exact hchange p u hp hp'

end Edit

/-- What a call on a path keeps: it leaves the tree, puts a file where no directory is, or takes
away the file that is there. -/
theorem call_keeps (kept : Tree → Prop) {c : Files.Call} (hc : c.IsOn path) (hsame : kept t)
    (hput : ∀ p bytes, t.resolve path = .ok p → t.at? p ≠ some .directory →
      kept (t.put p (.file bytes)))
    (hprune : ∀ p bytes, t.resolve path = .ok p → t.at? p = some (.file bytes) →
      kept (t.prune p)) : kept (t.call c).2 := by
  cases hc with
  | kind => exact hsame
  | read => exact hsame
  | size => exact hsame
  | sync => exact hsame
  | create =>
    refine edit_keeps kept hsame fun p v hp hv => ?_
    split at hv
    · cases hv
    · next hfree =>
      cases hv
      exact hput p [] hp hfree
  | append bytes =>
    refine edit_keeps kept hsame fun p v hp hv => ?_
    split at hv
    · cases hv
    · cases hv
    · next hfile =>
      cases hv
      exact hput p _ hp (by simp [hfile])
  | remove =>
    refine edit_keeps kept hsame fun p v hp hv => ?_
    split at hv
    · cases hv
    · cases hv
    · next hfile =>
      cases hv
      exact hprune p _ hp hfile

theorem agreeOff_call {c : Files.Call} (hc : c.IsOn path) (h : t.LeadsTo path place) :
    AgreeOff place t (t.call c).2 := by
  refine call_keeps (AgreeOff place t) hc (AgreeOff.refl place t) (fun p bytes hp _ => ?_)
    fun p bytes hp _ => ?_
  · obtain rfl := h p hp
    exact agreeOff_put _ t _
  · obtain rfl := h p hp
    exact agreeOff_prune _ t

/-- Where a path leads to no directory, a call on it makes none there. -/
theorem closed_call {c : Files.Call} (hc : c.IsOn path) (hplace : t.resolve path = .ok place)
    (hclosed : t.Closed place) : (t.call c).2.Closed place := by
  have hlead {p : Place} (hp : t.resolve path = .ok p) : p = place :=
    Except.ok.inj (hp.symm.trans hplace)
  refine call_keeps (Closed · place) hc hclosed (fun p bytes hp _ => ?_) fun p bytes hp _ => ?_
  · obtain rfl := hlead hp
    exact closed_of_file (at?_put_self hclosed.ne_nil)
  · obtain rfl := hlead hp
    exact closed_of_free (at?_prune_below List.prefix_rfl hclosed.ne_nil)

/-- A call on a path that leads nowhere or to a directory does nothing. -/
theorem call_eq_of_not_closed {c : Files.Call} (hc : c.IsOn path)
    (h : ∀ p, t.resolve path = .ok p → t.at? p = some .directory) : (t.call c).2 = t := by
  refine call_keeps (· = t) hc rfl (fun p bytes hp hfree => absurd (h p hp) hfree)
    fun p bytes hp hfile => ?_
  rw [h p hp] at hfile
  cases hfile

theorem at?_create (h : t.create path = (.ok (), u)) (hplace : t.LeadsTo path place)
    (hne : place ≠ []) : u.at? place = some (.file []) := by
  obtain ⟨p, hp, hchange⟩ := edit_eq_ok h
  obtain rfl := hplace p hp
  split at hchange
  · cases hchange
  · cases hchange
    exact at?_put_self hne

theorem at?_append {old bytes : List UInt8} (h : t.append path bytes = (.ok (), u))
    (hplace : t.LeadsTo path place) (hne : place ≠ []) (hold : t.at? place = some (.file old)) :
    u.at? place = some (.file (old ++ bytes)) := by
  obtain ⟨p, hp, hchange⟩ := edit_eq_ok h
  obtain rfl := hplace p hp
  rw [hold] at hchange
  cases hchange
  exact at?_put_self hne

/-- A file that gets another name is found under that, and the rest stays. -/
theorem at?_rename {source target : String} {origin : Place}
    (h : t.rename source target = (.ok (), u)) (horigin : t.LeadsTo source origin)
    (hplace : t.LeadsTo target place) (hne : place ≠ []) :
    t.resolve target = .ok place ∧ u.at? place = t.at? origin ∧
      ∀ other, ¬ origin <+: other → other ≠ place → u.at? other = t.at? other := by
  rw [rename] at h
  split at h
  · next entry p hopen hp =>
    obtain rfl := horigin p hp
    obtain ⟨q, hq, hchange⟩ := edit_eq_ok h
    obtain rfl := hplace q hq
    split at hchange
    · cases hchange
    · cases hchange
      have hentry : t.at? p = some entry := by
        rw [open?, hp] at hopen
        split at hopen
        · next hbad => cases hbad
        · next hgood =>
          cases hgood
          split at hopen
          · cases hopen
          · next hsome =>
            cases hopen
            exact hsome
      refine ⟨hq, (at?_put_self hne).trans hentry.symm, fun other hother hne' => ?_⟩
      rw [at?_put_of_ne hne', at?_prune_of_not_prefix hother]
  · cases h
  · cases h

theorem rename_eq_error {source target : String} {fault : IoFault}
    (h : t.rename source target = (.error fault, u)) : u = t := by
  rw [rename] at h
  split at h
  · exact edit_eq_error h
  · cases h
    rfl
  · cases h
    rfl

theorem makeDirectory_eq_ok (h : t.makeDirectory path = (.ok (), u)) :
    ∃ p, t.resolve path = .ok p ∧ t.at? p = none ∧ u = t.put p .directory := by
  obtain ⟨p, hp, hchange⟩ := edit_eq_ok h
  split at hchange
  · cases hchange
  · next hnone =>
    cases hchange
    exact ⟨p, hp, hnone, rfl⟩

/-! ### Directories -/

/-- The path names a directory, which is at this place. -/
structure Has (t : Tree) (directory : String) (place : Place) : Prop where
  resolves : t.resolve directory = .ok place
  isThere : t.at? place = some .directory

theorem Has.open?_eq (h : t.Has path place) : t.open? path = .ok .directory := by
  simp only [open?, h.resolves, h.isThere]

theorem exists_has (h : t.open? path = .ok .directory) : ∃ place, t.Has path place := by
  rw [open?] at h
  split at h
  · cases h
  · next place hplace =>
    split at h
    · cases h
    · next hthere =>
      cases h
      exact ⟨place, hplace, hthere⟩

theorem Has.removeTree (h : t.Has directory place) :
    t.removeTree directory = (.ok (), t.prune place) := by
  simp only [Tree.removeTree, edit, h.resolves, h.isThere]

theorem origin_join (directory : String) (hname : IsName name) :
    origin (join directory name) = origin directory := by
  rw [origin, origin,
    Files.Path.isAbsolute_join _ (Files.Path.isAbsolute_of_not_mem hname.noSlash)]

/-- The name of a file leads from a directory to the file, unless it is too long. -/
theorem walk_name (hthere : t.at? place = some .directory) (hname : IsName name) :
    t.walk place [name] =
      if (Text.Utf8.encode name).length > nameLimit then .error (.os .nameTooLong)
      else .ok (place ++ [name]) := by
  simp only [walk, hthere, beq_eq_false_iff_ne.mpr hname.ne_empty,
    beq_eq_false_iff_ne.mpr hname.ne_dot, beq_eq_false_iff_ne.mpr hname.ne_dots, Bool.or_self,
    Bool.false_eq_true, if_false]

/-- The path of a file leads where its name leads from the place of the directory. -/
theorem resolve_join (h : t.resolve directory = .ok place) (hname : IsName name)
    (hpath : IsWalkable (join directory name)) :
    t.resolve (join directory name) = t.walk place [name] := by
  by_cases hwalkable : IsWalkable directory
  case neg => exact absurd h ((resolve_of_not_isWalkable hwalkable t t).2 place)
  have hempty : directory ≠ "" := hwalkable.2.1
  rw [resolve_of_isWalkable hwalkable] at h
  have hfront : t.walk (origin directory) (Files.Path.front directory) = .ok place := by
    rcases Files.Path.split_eq_front hempty with hsplit | hsplit
    · rw [hsplit] at h
      exact h
    · rw [hsplit, walk_append] at h
      cases hp : t.walk (origin directory) (Files.Path.front directory) with
      | error fault =>
        rw [hp] at h
        cases h
      | ok p =>
        rw [hp] at h
        change t.walk p [""] = _ at h
        rw [walk] at h
        split at h
        · cases h
        · cases h
        · cases h
          rfl
  rw [resolve_of_isWalkable hpath, origin_join directory hname,
    Files.Path.split_join_front directory hname.noSlash, walk_append, hfront]
  rfl

/-- The path of a file leads into its directory, whether or not that is there. -/
theorem leadsTo_join (h : t.resolve directory = .ok place) (hname : IsName name) :
    t.LeadsTo (join directory name) (place ++ [name]) := by
  intro p hp
  by_cases hpath : IsWalkable (join directory name)
  · rw [resolve_join h hname hpath] at hp
    have hthere : t.at? place = some .directory := by
      rw [walk] at hp
      split at hp
      · cases hp
      · cases hp
      · assumption
    rw [walk_name hthere hname] at hp
    split at hp
    · cases hp
    · exact (Except.ok.inj hp).symm
  · exact absurd hp ((resolve_of_not_isWalkable hpath t t).2 p)

theorem Has.leadsTo (h : t.Has directory place) (hname : IsName name) :
    t.LeadsTo (join directory name) (place ++ [name]) := leadsTo_join h.resolves hname

/-- The path of a file leads to the same place in all trees that have its directory. -/
theorem Has.resolve_join_congr (h : t.Has directory place) (h' : u.Has directory place)
    (hname : IsName name) : u.resolve (join directory name) = t.resolve (join directory name) := by
  by_cases hpath : IsWalkable (join directory name)
  · rw [resolve_join h.resolves hname hpath, resolve_join h'.resolves hname hpath,
      walk_name h.isThere hname, walk_name h'.isThere hname]
  · exact (resolve_of_not_isWalkable hpath t u).1

/-- What a file in a directory holds is seen through its path. -/
theorem Has.open?_congr (h : t.Has directory place) (h' : u.Has directory place)
    (hname : IsName name) (hsame : u.at? (place ++ [name]) = t.at? (place ++ [name])) :
    u.open? (join directory name) = t.open? (join directory name) := by
  rw [open?, open?, h.resolve_join_congr h' hname]
  cases hp : t.resolve (join directory name) with
  | error fault => rfl
  | ok p =>
    obtain rfl := h.leadsTo hname p hp
    simp only [hsame]

end Scripted.Tree

end SqlBackup

namespace SqlBackup.Scripted.Tree

variable {t u : Tree} {place other : Place} {name path : String}

/-- An entry is listed under its last name, by the directory that it is in. -/
theorem listed_eq_some {e : Place × Files.Entry} :
    (if e.1.dropLast == place && e.1 != place then e.1.getLast? else none) = some name ↔
      e.1 = place ++ [name] := by
  constructor
  · intro h
    split at h
    · next hbelow =>
      rw [Bool.and_eq_true, beq_iff_eq] at hbelow
      obtain ⟨front, hfront⟩ := List.getLast?_eq_some_iff.mp h
      rw [← hbelow.1, hfront, List.dropLast_concat]
    · cases h
  · intro h
    simp [h]

theorem mem_namesAt : name ∈ t.namesAt place ↔ ∃ entry, t.at? (place ++ [name]) = some entry := by
  have hplace : ¬ (place ++ [name]).isEmpty = true := by simp
  simp only [namesAt, List.mem_filterMap, listed_eq_some, at?, if_neg hplace]
  constructor
  · rintro ⟨e, he, hplace⟩
    have hfound : (t.entries.find? (·.1 == place ++ [name])).isSome = true :=
      List.find?_isSome.mpr ⟨e, he, by simp [hplace]⟩
    obtain ⟨e', he'⟩ := Option.isSome_iff_exists.mp hfound
    exact ⟨e'.2, by rw [he', Option.map_some]⟩
  · rintro ⟨entry, hentry⟩
    obtain ⟨e, he, -⟩ := Option.map_eq_some_iff.mp hentry
    exact ⟨e, List.mem_of_find?_eq_some he, by simpa using List.find?_some he⟩

theorem list_eq (h : t.Has path place) : t.list path = .ok (t.namesAt place) := by
  simp only [list, h.open?_eq, h.resolves]

/-! ### Nothing is listed twice -/

theorem nodup_namesAt_prune (h : (t.namesAt place).Nodup) :
    ((t.prune other).namesAt place).Nodup :=
  h.sublist (List.filter_sublist.filterMap _)

theorem nodup_namesAt_put (h : (t.namesAt place).Nodup) (entry : Files.Entry) :
    ((t.put other entry).namesAt place).Nodup := by
  simp only [namesAt, put, List.filterMap_append]
  refine List.nodup_append.mpr ⟨h.sublist (List.filter_sublist.filterMap _), ?_, ?_⟩
  · rw [List.filterMap_cons]
    split
    · exact List.nodup_nil
    · exact List.nodup_singleton _
  · rintro name hold new hnew rfl
    obtain ⟨e, he, hname⟩ := List.mem_filterMap.mp hold
    obtain ⟨e', he', hname'⟩ := List.mem_filterMap.mp hnew
    rw [listed_eq_some] at hname hname'
    rw [List.mem_singleton.mp he'] at hname'
    have hne : e.1 ≠ other := by simpa using (List.mem_filter.mp he).2
    exact hne (hname.trans hname'.symm)

theorem nodup_namesAt_edit {change : Place → Option Files.Entry → Except OsFault Tree}
    (h : (t.namesAt place).Nodup)
    (hchange : ∀ p v, change p (t.at? p) = .ok v → (v.namesAt place).Nodup) :
    ((t.edit path change).2.namesAt place).Nodup :=
  edit_keeps (fun v => (v.namesAt place).Nodup) h fun p v _ hv =>
    hchange p v hv

theorem nodup_namesAt_makePath (h : (t.namesAt place).Nodup) (start : Place)
    (names : List String) : ((t.makePath start names).2.namesAt place).Nodup := by
  induction names generalizing t start with
  | nil => exact h
  | cons name names ih =>
    rw [makePath]
    split
    · exact h
    · split
      · exact ih h _
      · exact h
      · exact ih (nodup_namesAt_put h _) _

/-- No call makes a directory list a name twice. -/
theorem nodup_namesAt_call (h : (t.namesAt place).Nodup) (call : Files.Call) :
    ((t.call call).2.namesAt place).Nodup := by
  cases call with
  | kind path => exact h
  | read path => exact h
  | size path => exact h
  | sync path => exact h
  | list path => exact h
  | create path =>
    refine nodup_namesAt_edit h fun p v hv => ?_
    split at hv
    · cases hv
    · cases hv
      exact nodup_namesAt_put h _
  | append path bytes =>
    refine nodup_namesAt_edit h fun p v hv => ?_
    split at hv
    · cases hv
    · cases hv
    · cases hv
      exact nodup_namesAt_put h _
  | remove path =>
    refine nodup_namesAt_edit h fun p v hv => ?_
    split at hv
    · cases hv
    · cases hv
    · cases hv
      exact nodup_namesAt_prune h
  | makeDirectory path =>
    refine nodup_namesAt_edit h fun p v hv => ?_
    split at hv
    · cases hv
    · cases hv
      exact nodup_namesAt_put h _
  | makeDirectories path =>
    simp only [call, makeDirectories]
    split
    · exact h
    · exact nodup_namesAt_makePath h _ _
  | removeTree path =>
    refine nodup_namesAt_edit h fun p v hv => ?_
    split at hv
    · cases hv
    · cases hv
    · cases hv
      exact nodup_namesAt_prune h
  | rename source target =>
    simp only [call, rename]
    split
    · refine nodup_namesAt_edit h fun p v hv => ?_
      split at hv
      · cases hv
      · cases hv
        exact nodup_namesAt_put (nodup_namesAt_prune h) _
    · exact h
    · exact h

end SqlBackup.Scripted.Tree
