import Mathlib
import SqlBackup.Proofs.Scripted.Walk

/-!
# Making the directories of a path

Directories are made one after the other along a path. Whatever a tree names it still names when
some of them have been made, and where the path names a directory already none is made.
-/
namespace SqlBackup.Scripted.Tree

variable {t u v : Tree} {place start : Place} {path : String} {entry : Files.Entry}

/-- All that is in the tree is in the other one. -/
def Keeps (t u : Tree) : Prop := ∀ place entry, t.at? place = some entry → u.at? place = some entry

theorem Keeps.refl (t : Tree) : Keeps t t := fun _ _ h => h

theorem Keeps.trans (h : Keeps t u) (h' : Keeps u v) : Keeps t v :=
  fun place entry hentry => h' place entry (h place entry hentry)

theorem keeps_put (hfree : t.at? place = none) (entry : Files.Entry) :
    Keeps t (t.put place entry) := by
  intro other old hold
  have hne : other ≠ place := by
    rintro rfl
    rw [hfree] at hold
    cases hold
  rw [at?_put_of_ne hne]
  exact hold

/-- A walk that ends in a tree ends at the same place in a tree that has all of it. -/
theorem Keeps.walk (h : Keeps t u) {names : List String} {p : Place}
    (hwalk : t.walk start names = .ok p) : u.walk start names = .ok p := by
  induction names generalizing start with
  | nil => exact hwalk
  | cons name names ih =>
    rw [walk_cons] at hwalk ⊢
    cases hnext : t.next start name with
    | error fault =>
      rw [hnext] at hwalk
      cases hwalk
    | ok q =>
      have hsame : u.next start name = .ok q := by
        rw [next] at hnext ⊢
        cases hat : t.at? start with
        | none =>
          rw [hat] at hnext
          cases hnext
        | some entry =>
          rw [hat] at hnext
          rw [h start entry hat]
          exact hnext
      rw [hnext] at hwalk
      rw [hsame]
      exact ih hwalk

theorem Keeps.open? (h : Keeps t u) (hopen : t.open? path = .ok entry) :
    u.open? path = .ok entry := by
  rw [Tree.open?] at hopen
  split at hopen
  · cases hopen
  · next p hp =>
    split at hopen
    · cases hopen
    · next hentry =>
      cases hopen
      have hp' : u.resolve path = .ok p := by
        by_cases hwalkable : IsWalkable path
        · rw [resolve_of_isWalkable hwalkable] at hp ⊢
          exact h.walk hp
        · exact absurd hp ((resolve_of_not_isWalkable hwalkable t t).2 p)
      simp only [Tree.open?, hp', h p _ hentry]

theorem keeps_makePath (t : Tree) (place : Place) (names : List String) :
    Keeps t (t.makePath place names).2 := by
  induction names generalizing t place with
  | nil => exact Keeps.refl t
  | cons name names ih =>
    rw [makePath]
    split
    · exact Keeps.refl t
    · next q _ =>
      split
      · exact ih t q
      · exact Keeps.refl t
      · next hfree => exact (keeps_put hfree .directory).trans (ih _ q)

/-- A walk that ends at a directory starts at one. -/
theorem at?_of_walk {names : List String} (hwalk : t.walk place names = .ok start)
    (hthere : t.at? start = some .directory) : t.at? place = some .directory := by
  cases names with
  | nil =>
    cases hwalk
    exact hthere
  | cons name names =>
    rw [walk_cons, next] at hwalk
    cases hat : t.at? place with
    | none =>
      rw [hat] at hwalk
      cases hwalk
    | some entry =>
      cases entry with
      | file bytes =>
        rw [hat] at hwalk
        cases hwalk
      | directory => rfl

/-- A part of a path that is passed over leads nowhere else. -/
theorem eq_of_next {name : String} (hnext : t.next place name = .ok start)
    (hpassed : (name != "" && name != ".") = false) : start = place := by
  have hsame : (name == "" || name == ".") = true := by
    rwa [bne, bne, ← Bool.not_or, Bool.not_eq_false'] at hpassed
  rw [next] at hnext
  split at hnext
  · cases hnext
  · cases hnext
  · rw [if_pos hsame] at hnext
    exact (Except.ok.inj hnext).symm

/-- Where a walk ends at a directory, none is made along it. -/
theorem makePath_of_walk {names front : List String}
    (hwalk : t.walk place names = .ok start) (hthere : t.at? start = some .directory)
    (hfront : front <+: names.filter fun part => part != "" && part != ".") :
    (t.makePath place front).2 = t := by
  induction names generalizing place front with
  | nil =>
    rw [List.filter_nil, List.prefix_nil] at hfront
    rw [hfront]
    rfl
  | cons name names ih =>
    rw [walk_cons] at hwalk
    cases hnext : t.next place name with
    | error fault =>
      rw [hnext] at hwalk
      cases hwalk
    | ok q =>
      rw [hnext] at hwalk
      replace hwalk : t.walk q names = .ok start := hwalk
      cases hkept : name != "" && name != "." with
      | true =>
        rw [List.filter_cons, if_pos hkept] at hfront
        cases front with
        | nil => rfl
        | cons first front =>
          obtain ⟨rfl, hrest⟩ := List.cons_prefix_cons.mp hfront
          have hstep : t.walk place [first] = .ok q := by
            rw [walk_cons, hnext]
            rfl
          simp only [makePath, hstep, at?_of_walk hwalk hthere]
          exact ih hwalk hrest
      | false =>
        rw [List.filter_cons, hkept, if_neg Bool.false_ne_true] at hfront
        obtain rfl := eq_of_next hnext hkept
        exact ih hwalk hfront

/-! ### Spared trees -/

/-- The tree has become another by making some of the directories along a path. -/
def Paved (path : String) (t u : Tree) : Prop :=
  ∃ names, names <+: Files.Path.components path ∧ u = (t.makePath (origin path) names).2

theorem paved_refl (path : String) (t : Tree) : Paved path t t := ⟨[], List.nil_prefix, rfl⟩

theorem paved_makeDirectories (path : String) (t : Tree) :
    Paved path t (t.makeDirectories path).2 := by
  rw [makeDirectories]
  split
  · exact paved_refl path t
  · exact ⟨_, List.prefix_rfl, rfl⟩

theorem Paved.keeps (h : Paved path t u) : Keeps t u := by
  obtain ⟨names, -, rfl⟩ := h
  exact keeps_makePath t _ names

theorem Paved.eq (h : Paved path t u) (hthere : t.open? path = .ok .directory) : u = t := by
  obtain ⟨names, hnames, rfl⟩ := h
  rw [open?] at hthere
  split at hthere
  · cases hthere
  · next p hp =>
    split at hthere
    · cases hthere
    · next hat =>
      cases hthere
      by_cases hwalkable : IsWalkable path
      · rw [resolve_of_isWalkable hwalkable] at hp
        exact makePath_of_walk hp hat hnames
      · exact absurd hp ((resolve_of_not_isWalkable hwalkable t t).2 p)

/-- What is named in a tree is named in the other, and is the same. What else is named there is what
is left if nothing but some of the directories along a path is made, and that is nothing where the
path named a directory before. -/
structure Spared (path : String) (t u : Tree) : Prop where
  kept : ∀ other entry, t.open? other = .ok entry → u.open? other = .ok entry
  made : ∃ v, Paved path t v ∧ Alike v u
  same : t.open? path = .ok .directory → Alike t u

theorem Paved.spared (h : Paved path t u) (hu : Alike u v) : Spared path t v where
  kept other _ hentry := (hu other).trans (h.keeps.open? hentry)
  made := ⟨u, h, hu⟩
  same hthere := h.eq hthere ▸ hu

end SqlBackup.Scripted.Tree
