import Mathlib
import SqlBackup.Proofs.Scripted.Calls
import SqlBackup.Proofs.Scripted.Making
import SqlBackup.Proofs.Scripted.Walk
import SqlBackup.Proofs.Text.Encoding

/-!
# The way to a directory

A path leads into a directory if the names on the way to it are those on the way to the directory
and, behind these, more that do not lead back. That is told by the texts of the two paths, and it is
so in every tree of files.

As long as nothing is changed but below a directory that was empty, its path leads to it: the walk to
the directory never got below it. The paths of what is in it are known then, too. Where something was
in the directory before, its path still leads to it as long as every directory on the way stays.
-/
namespace SqlBackup

namespace Files.Path

variable {directory path : String} {names : List String}

/-- There are names, and none of them leads back. -/
def LeadsOn (names : List String) : Prop := names ≠ [] ∧ ".." ∉ names

instance : Decidable (LeadsOn names) := inferInstanceAs (Decidable (_ ∧ _))

/-- A path that leads on from wherever it is followed. -/
def IsBelow (path : String) : Prop := isAbsolute path = false ∧ LeadsOn (components path)

instance : Decidable (IsBelow path) := inferInstanceAs (Decidable (_ ∧ _))

/-- A path that leads through a directory and on from there. -/
def Inside (directory path : String) : Prop :=
  isAbsolute path = isAbsolute directory ∧ components directory <+: components path ∧
    LeadsOn ((components path).drop (components directory).length)

instance : Decidable (Inside directory path) := inferInstanceAs (Decidable (_ ∧ _ ∧ _))

theorem inside_iff : Inside directory path ↔ isAbsolute path = isAbsolute directory ∧
    ∃ below, LeadsOn below ∧ components path = components directory ++ below := by
  refine and_congr_right fun _ => ⟨?_, ?_⟩
  · rintro ⟨⟨below, hbelow⟩, hleads⟩
    rw [← hbelow, List.drop_left] at hleads
    exact ⟨below, hleads, hbelow.symm⟩
  · rintro ⟨below, hleads, hbelow⟩
    rw [hbelow, List.drop_left]
    exact ⟨List.prefix_append _ _, hleads⟩

theorem inside_join (directory : String) (h : IsBelow path) :
    Inside directory (join directory path) :=
  inside_iff.mpr ⟨isAbsolute_join directory h.1, _, h.2, components_join directory h.1⟩

theorem isBelow_of_isName (h : IsName path) : IsBelow path := by
  refine ⟨isAbsolute_of_not_mem h.noSlash, ?_⟩
  rw [components_of_isName h]
  exact ⟨List.cons_ne_nil _ _, by simpa using Ne.symm h.ne_dots⟩

end Files.Path

namespace Scripted.Tree

open Files.Path (LeadsOn Inside components)

variable {t : Tree} {start place p : Place} {path directory : String} {names : List String}

/-- The place that a name leads to where it leads anywhere. -/
def enter (place : Place) (name : String) : Place :=
  if name = ".." then place.dropLast else place ++ [name]

theorem walk_eq_foldl (h : t.walk start names = .ok p) :
    p = (names.filter fun name => name != "" && name != ".").foldl enter start := by
  induction names generalizing start with
  | nil =>
    cases h
    rfl
  | cons name names ih =>
    rw [walk] at h
    split at h
    · cases h
    · cases h
    split at h
    · next hsame =>
      rw [ih h, List.filter_cons_of_neg]
      simpa [Bool.or_eq_true, or_iff_not_imp_left] using hsame
    next hsame =>
    rw [List.filter_cons_of_pos (by simpa using hsame), List.foldl_cons]
    split at h
    · next hback => rw [ih h, enter, if_pos (by simpa using hback)]
    next hback =>
    split at h
    · cases h
    · rw [ih h, enter, if_neg (by simpa using hback)]

/-- Where a path leads is told by its text. -/
theorem resolve_eq_foldl (h : t.resolve path = .ok p) :
    p = (components path).foldl enter (if Files.Path.isAbsolute path then ["/"] else []) := by
  rw [resolve] at h
  split at h
  · cases h
  split at h
  · cases h
  split at h
  · cases h
  exact walk_eq_foldl h

theorem foldl_enter (h : ".." ∉ names) (place : Place) :
    names.foldl enter place = place ++ names := by
  induction names generalizing place with
  | nil => exact (List.append_nil place).symm
  | cons name names ih =>
    rw [List.mem_cons, not_or] at h
    rw [List.foldl_cons, ih h.2, enter, if_neg (Ne.symm h.1), List.append_assoc,
      List.singleton_append]

/-- What a path into a directory leads to is below the directory. -/
theorem exists_below (h : Inside directory path) (hdirectory : t.resolve directory = .ok place)
    (hpath : t.resolve path = .ok p) : ∃ below, LeadsOn below ∧ p = place ++ below := by
  obtain ⟨habsolute, below, hleads, hcomponents⟩ := Files.Path.inside_iff.mp h
  refine ⟨below, hleads, ?_⟩
  rw [resolve_eq_foldl hpath, habsolute, hcomponents, List.foldl_append, foldl_enter hleads.2,
    ← resolve_eq_foldl hdirectory]

end Scripted.Tree

end SqlBackup

namespace SqlBackup.Scripted.Tree

open Files.Path (IsName IsDirectory join)

variable {t u v : Tree} {place : Place} {path directory name : String}

/-- The trees have the same entries, except strictly below a place. -/
def AgreeUpTo (place : Place) (t u : Tree) : Prop :=
  ∀ other, NotBelow place other → u.at? other = t.at? other

theorem AgreeUpTo.refl (place : Place) (t : Tree) : AgreeUpTo place t t := fun _ _ => rfl

theorem AgreeUpTo.trans (h : AgreeUpTo place t u) (h' : AgreeUpTo place u v) :
    AgreeUpTo place t v := fun other hother => (h' other hother).trans (h other hother)

theorem AgreeOff.upTo (h : AgreeOff (place ++ [name]) t u) : AgreeUpTo place t u := by
  refine fun other hother => h other fun hbelow => ?_
  have heq := hother ((List.prefix_append place [name]).trans hbelow)
  simpa [heq] using hbelow.length_le

/-- The path names a directory that has nothing in it. -/
structure HasEmpty (t : Tree) (directory : String) (place : Place) : Prop
    extends t.Has directory place where
  empty : ∀ other, ¬ NotBelow place other → t.at? other = none

/-- A walk that ends where nothing is below a place ends there whatever is put below it. -/
theorem walk_of_agreeUpTo (hempty : ∀ other, ¬ NotBelow place other → t.at? other = none)
    (hagree : AgreeUpTo place t u) {names : List String} {start p : Place}
    (h : t.walk start names = .ok p) : u.walk start names = .ok p := by
  induction names generalizing start with
  | nil => exact h
  | cons name names ih =>
    by_cases hstart : NotBelow place start
    · rw [walk_cons] at h ⊢
      have hnext : u.next start name = t.next start name := by
        rw [next, next, hagree start hstart]
      rw [hnext]
      cases hp : t.next start name with
      | error fault =>
        rw [hp] at h
        cases h
      | ok q =>
        rw [hp] at h
        exact ih h
    · rw [walk, hempty start hstart] at h
      cases h

theorem HasEmpty.has (h : t.HasEmpty directory place) (hagree : AgreeUpTo place t u) :
    u.Has directory place := by
  refine ⟨?_, (hagree place fun _ => rfl).trans h.isThere⟩
  have hresolves := h.resolves
  by_cases hwalkable : IsWalkable directory
  · rw [resolve_of_isWalkable hwalkable] at hresolves ⊢
    exact walk_of_agreeUpTo h.empty hagree hresolves
  · exact absurd hresolves ((resolve_of_not_isWalkable hwalkable t t).2 place)

/-! ### Paths below a directory -/

theorem IsWalkable.of_join (hdirectory : IsDirectory directory) (hname : IsName name)
    (h : IsWalkable (join directory name)) : IsWalkable directory := by
  obtain ⟨hnul, -, hlong⟩ := h
  rw [Files.Path.join_eq hdirectory hname.noSlash] at hnul hlong
  refine ⟨fun hmem => hnul (by simp [hmem]), ?_, ?_⟩
  · rintro rfl
    obtain ⟨c, -, hlast⟩ := hdirectory
    cases hlast
  · rw [Text.Utf8.encode_append, Text.Utf8.encode_append, List.length_append,
      List.length_append] at hlong
    omega

/-- The path of a file leads into the directory that the path of its directory leads to. -/
theorem LeadsTo.join (hdirectory : IsDirectory directory) (h : t.LeadsTo directory place)
    (hname : IsName name) : t.LeadsTo (join directory name) (place ++ [name]) := by
  intro p hp
  by_cases hpath : IsWalkable (Files.Path.join directory name)
  · have hwalkable := hpath.of_join hdirectory hname
    cases hq : t.resolve directory with
    | ok q =>
      obtain rfl := h q hq
      exact leadsTo_join hq hname p hp
    | error fault =>
      rw [resolve_of_isWalkable hwalkable] at hq
      rw [resolve_of_isWalkable hpath, origin_join directory hname,
        Files.Path.split_join hdirectory hname.noSlash, walk_append, hq] at hp
      cases hp
  · exact absurd hp ((resolve_of_not_isWalkable hpath t t).2 p)

/-! ### Ways through directories -/

/-- There are directories at a place and at all places above it. -/
def IsOpen (t : Tree) (place : Place) : Prop :=
  ∀ other, other <+: place → t.at? other = some .directory

/-- What is open in the tree is open in the other one. -/
def Opens (t u : Tree) : Prop := ∀ place, t.IsOpen place → u.IsOpen place

theorem Opens.refl (t : Tree) : t.Opens t := fun _ h => h

theorem Opens.trans (h : t.Opens u) (h' : u.Opens v) : t.Opens v :=
  fun place hplace => h' place (h place hplace)

theorem Keeps.opens (h : Keeps t u) : t.Opens u :=
  fun _ hplace other hother => h other _ (hplace other hother)

theorem IsOpen.above (h : t.IsOpen place) {above : Place} (habove : above <+: place) :
    t.IsOpen above := fun other hother => h other (hother.trans habove)

theorem IsOpen.isThere (h : t.IsOpen place) : t.at? place = some .directory :=
  h place List.prefix_rfl

theorem not_isOpen_of_free (h : t.at? place = none) : ¬ t.IsOpen place := by
  intro hopen
  rw [hopen.isThere] at h
  cases h

theorem isOpen_concat : t.IsOpen (place ++ [name]) ↔
    t.IsOpen place ∧ t.at? (place ++ [name]) = some .directory := by
  refine ⟨fun h => ⟨h.above (List.prefix_append place [name]), h.isThere⟩, fun ⟨h, hlast⟩ => ?_⟩
  intro other hother
  rcases List.prefix_concat_iff.mp hother with rfl | habove
  · exact hlast
  · exact h other habove

/-- Where a name leads on, all up to there is open. -/
theorem isOpen_of_next {start p : Place} (hstart : t.IsOpen start.dropLast)
    (h : t.next start name = .ok p) : t.IsOpen start ∧ t.IsOpen p.dropLast := by
  rw [next] at h
  split at h
  · cases h
  · cases h
  · next hthere =>
    have hopen : t.IsOpen start := by
      rcases List.eq_nil_or_concat start with rfl | ⟨front, last, rfl⟩
      · exact hstart
      · rw [List.concat_eq_append] at hstart hthere ⊢
        rw [List.dropLast_concat] at hstart
        exact isOpen_concat.mpr ⟨hstart, hthere⟩
    refine ⟨hopen, ?_⟩
    split at h
    · cases h
      exact hstart
    · split at h
      · cases h
        exact hstart.above (List.dropLast_prefix _)
      · split at h
        · cases h
        · cases h
          rw [List.dropLast_concat]
          exact hopen

/-- A walk that ends in the tree ends at the same place in a tree in which all is open that is so
there. -/
theorem Opens.walk (h : t.Opens u) {names : List String} {start p : Place}
    (hstart : t.IsOpen start.dropLast) (hwalk : t.walk start names = .ok p) :
    u.walk start names = .ok p := by
  induction names generalizing start with
  | nil => exact hwalk
  | cons name names ih =>
    rw [walk_cons] at hwalk ⊢
    cases hnext : t.next start name with
    | error fault =>
      rw [hnext] at hwalk
      cases hwalk
    | ok q =>
      obtain ⟨hopen, hq⟩ := isOpen_of_next hstart hnext
      have hsame : u.next start name = .ok q := by
        rw [next, (h start hopen).isThere]
        rw [next, hopen.isThere] at hnext
        exact hnext
      rw [hnext] at hwalk
      rw [hsame]
      exact ih hq hwalk

theorem isOpen_of_walk {names : List String} {start p : Place} (hstart : t.IsOpen start.dropLast)
    (hwalk : t.walk start names = .ok p) : t.IsOpen p.dropLast := by
  induction names generalizing start with
  | nil =>
    cases hwalk
    exact hstart
  | cons name names ih =>
    rw [walk_cons] at hwalk
    cases hnext : t.next start name with
    | error fault =>
      rw [hnext] at hwalk
      cases hwalk
    | ok q =>
      rw [hnext] at hwalk
      exact ih (isOpen_of_next hstart hnext).2 hwalk

theorem isOpen_origin (t : Tree) (path : String) : t.IsOpen (origin path).dropLast := by
  have hnil : t.IsOpen [] := fun other hother => List.prefix_nil.mp hother ▸ at?_nil t
  rw [origin]
  split <;> exact hnil

/-- What the paths of a directory's files have in common leads to this place, where a directory is.
That does not say that the directory has a path itself: the empty path is none. -/
structure Rooted (t : Tree) (directory : String) (place : Place) : Prop where
  walks : t.walk (origin directory) (Files.Path.front directory) = .ok place
  isOpen : t.IsOpen place

theorem Rooted.opens (h : t.Rooted directory place) (hopens : t.Opens u) :
    u.Rooted directory place :=
  ⟨hopens.walk (isOpen_origin t directory) h.walks, hopens place h.isOpen⟩

theorem Rooted.resolve_join (h : t.Rooted directory place) (hname : IsName name)
    (hpath : IsWalkable (join directory name)) :
    t.resolve (join directory name) = t.walk place [name] := by
  rw [resolve_of_isWalkable hpath, origin_join directory hname,
    Files.Path.split_join_front directory hname.noSlash, walk_append, h.walks]
  rfl

/-- The path of a file leads to the same place in all trees that have the directory there. -/
theorem Rooted.resolve_congr (h : t.Rooted directory place) (h' : u.Rooted directory place)
    (hname : IsName name) : u.resolve (join directory name) = t.resolve (join directory name) := by
  by_cases hpath : IsWalkable (join directory name)
  · rw [h.resolve_join hname hpath, h'.resolve_join hname hpath,
      walk_name h.isOpen.isThere hname, walk_name h'.isOpen.isThere hname]
  · exact (resolve_of_not_isWalkable hpath t u).1

theorem Rooted.leadsTo (h : t.Rooted directory place) (hname : IsName name) :
    t.LeadsTo (join directory name) (place ++ [name]) := by
  intro p hp
  by_cases hpath : IsWalkable (join directory name)
  · rw [h.resolve_join hname hpath, walk_name h.isOpen.isThere hname] at hp
    split at hp
    · cases hp
    · exact (Except.ok.inj hp).symm
  · exact absurd hp ((resolve_of_not_isWalkable hpath t t).2 p)

/-- A path that leads somewhere leads through its directory. -/
theorem exists_rooted {p : Place} (h : t.resolve (join directory name) = .ok p)
    (hname : IsName name) : ∃ place, t.Rooted directory place ∧ p = place ++ [name] := by
  by_cases hpath : IsWalkable (join directory name)
  · have hwalk := h
    rw [resolve_of_isWalkable hpath, origin_join directory hname,
      Files.Path.split_join_front directory hname.noSlash, walk_append] at hwalk
    cases hplace : t.walk (origin directory) (Files.Path.front directory) with
    | error fault =>
      rw [hplace] at hwalk
      cases hwalk
    | ok place =>
      rw [hplace] at hwalk
      change t.walk place [name] = _ at hwalk
      rw [walk_cons] at hwalk
      cases hnext : t.next place name with
      | error fault =>
        rw [hnext] at hwalk
        cases hwalk
      | ok q =>
        have hbefore := isOpen_of_walk (isOpen_origin t directory) hplace
        have hrooted : t.Rooted directory place := ⟨hplace, (isOpen_of_next hbefore hnext).1⟩
        exact ⟨place, hrooted, hrooted.leadsTo hname p h⟩
  · exact absurd h ((resolve_of_not_isWalkable hpath t t).2 p)

/-- No directory is made on the way to what is there. -/
theorem Rooted.eq_of_paved (h : t.Rooted directory place) (hpaved : Paved directory t u) :
    u = t := by
  obtain ⟨names, hnames, rfl⟩ := hpaved
  rw [Files.Path.components_eq_front] at hnames
  exact makePath_of_walk h.walks h.isOpen.isThere hnames

end SqlBackup.Scripted.Tree
