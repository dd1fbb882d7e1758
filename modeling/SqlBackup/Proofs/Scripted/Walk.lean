import Mathlib
import SqlBackup.Proofs.Files.Path
import SqlBackup.Scripted.Files

/-!
# Where paths lead in a tree of files

Putting an entry at a place changes that place alone, and taking a place out changes what is there
and below. A path leads to the same place in two trees that differ only below a place where neither
of them has a directory, because no walk gets past such a place.
-/
namespace SqlBackup.Scripted.Tree

variable {t : Tree} {place other : Place} {entry : Files.Entry}

theorem at?_nil (t : Tree) : t.at? [] = some .directory := rfl

theorem at?_put_self (h : place ≠ []) : (t.put place entry).at? place = some entry := by
  have hnone : (t.entries.filter (·.1 != place)).find? (·.1 == place) = none := by
    rw [List.find?_eq_none]
    intro e he
    simpa using (List.mem_filter.mp he).2
  rw [at?, if_neg (by simpa using h), put, List.find?_append, hnone]
  simp

theorem find?_filter_of_imp {α : Type} {p q : α → Bool} (h : ∀ a, q a = true → p a = true)
    (xs : List α) : (xs.filter p).find? q = xs.find? q := by
  rw [List.find?_filter]
  congr 1
  funext a
  cases hq : q a with
  | false => simp
  | true => simp [h a hq]

theorem at?_put_of_ne (h : other ≠ place) : (t.put place entry).at? other = t.at? other := by
  have hkept : (t.entries.filter (·.1 != place)).find? (·.1 == other) =
      t.entries.find? (·.1 == other) :=
    find?_filter_of_imp (fun e he => by
      rw [beq_iff_eq] at he
      simpa [he] using h) _
  have hnew : ([(place, entry)] : List (Place × Files.Entry)).find? (·.1 == other) = none := by
    simpa using Ne.symm h
  simp only [at?, put, List.find?_append, hkept, hnew, Option.or_none]

theorem at?_prune_of_not_prefix (h : ¬ place <+: other) :
    (t.prune place).at? other = t.at? other := by
  have hkept : (t.entries.filter fun e => !place.isPrefixOf e.1).find? (·.1 == other) =
      t.entries.find? (·.1 == other) :=
    find?_filter_of_imp (fun e he => by
      rw [beq_iff_eq] at he
      rw [he, Bool.not_eq_true', ← Bool.not_eq_true, List.isPrefixOf_iff_prefix]
      exact h) _
  simp only [at?, prune, hkept]

theorem at?_prune_below (h : place <+: other) (hne : other ≠ []) :
    (t.prune place).at? other = none := by
  rw [at?, if_neg (by simpa using hne), Option.map_eq_none_iff, prune, List.find?_eq_none]
  intro e he hother
  rw [beq_iff_eq] at hother
  have hkept := (List.mem_filter.mp he).2
  rw [hother, Bool.not_eq_true', ← Bool.not_eq_true, List.isPrefixOf_iff_prefix] at hkept
  exact hkept h

end SqlBackup.Scripted.Tree

namespace SqlBackup.Scripted.Tree

variable {t u v : Tree} {place start other : Place} {path directory name : String}

/-- The trees have the same entries, except at a place and below it. -/
def AgreeOff (place : Place) (t u : Tree) : Prop :=
  ∀ other, ¬ place <+: other → u.at? other = t.at? other

theorem AgreeOff.refl (place : Place) (t : Tree) : AgreeOff place t t := fun _ _ => rfl

theorem AgreeOff.trans (h : AgreeOff place t u) (h' : AgreeOff place u v) : AgreeOff place t v :=
  fun other hother => (h' other hother).trans (h other hother)

/-- What differs below a place differs below every place above it. -/
theorem AgreeOff.above (h : AgreeOff (place ++ other) t u) : AgreeOff place t u :=
  fun q hq => h q fun hbelow => hq ((List.prefix_append place other).trans hbelow)

theorem agreeOff_put (place : Place) (t : Tree) (entry : Files.Entry) :
    AgreeOff place t (t.put place entry) :=
  fun _ hother => at?_put_of_ne fun heq => hother (heq ▸ List.prefix_rfl)

theorem agreeOff_prune (place : Place) (t : Tree) : AgreeOff place t (t.prune place) :=
  fun _ hother => at?_prune_of_not_prefix hother

theorem AgreeOff.symm (h : AgreeOff place t u) : AgreeOff place u t :=
  fun other hother => (h other hother).symm

/-- No walk gets past the place. -/
def Closed (t : Tree) (place : Place) : Prop := t.at? place ≠ some .directory

theorem Closed.ne_nil (h : t.Closed place) : place ≠ [] := by
  rintro rfl
  exact h (at?_nil t)

theorem closed_of_free (h : t.at? place = none) : t.Closed place := by
  simp [Closed, h]

theorem closed_of_file {bytes : List UInt8} (h : t.at? place = some (.file bytes)) :
    t.Closed place := by
  simp [Closed, h]

theorem ne_nil_of_free (h : t.at? place = none) : place ≠ [] := (closed_of_free h).ne_nil

/-! ### Walks -/

/-- The place that one name leads to from another. -/
def next (t : Tree) (place : Place) (name : String) : Except IoFault Place :=
  match t.at? place with
  | none => .error (.os .notFound)
  | some (.file _) => .error (.os .notADirectory)
  | some .directory =>
      if name == "" || name == "." then .ok place
      else if name == ".." then .ok place.dropLast
      else if (Text.Utf8.encode name).length > nameLimit then .error (.os .nameTooLong)
      else .ok (place ++ [name])

theorem walk_cons (t : Tree) (start : Place) (name : String) (names : List String) :
    t.walk start (name :: names) = (t.next start name).bind fun p => t.walk p names := by
  rw [walk, next]
  rcases t.at? start with _ | (bytes | _)
  · rfl
  · rfl
  · dsimp only
    split
    · rfl
    · split
      · rfl
      · split <;> rfl

theorem walk_append (t : Tree) (start : Place) (xs ys : List String) :
    t.walk start (xs ++ ys) = (t.walk start xs).bind fun p => t.walk p ys := by
  induction xs generalizing start with
  | nil => rfl
  | cons x xs ih =>
    rw [List.cons_append, walk_cons, walk_cons]
    cases t.next start x with
    | error fault => rfl
    | ok p => exact ih p

/-- The place is not strictly below the other. -/
def NotBelow (place other : Place) : Prop := place <+: other → other = place

/-- One name leads from outside of a place at most to the place itself. -/
theorem notBelow_next {p : Place} (hoff : ¬ place <+: start) (h : t.next start name = .ok p) :
    NotBelow place p := by
  intro hbelow
  rw [next] at h
  split at h
  · cases h
  · cases h
  · split at h
    · cases h
      exact absurd hbelow hoff
    · split at h
      · cases h
        exact absurd (hbelow.trans (List.dropLast_prefix start)) hoff
      · split at h
        · cases h
        · cases h
          rcases List.prefix_concat_iff.mp hbelow with heq | habove
          · exact heq.symm
          · exact absurd habove hoff

theorem next_of_agreeOff (hagree : AgreeOff place t u) (hoff : ¬ place <+: start) :
    u.next start name = t.next start name := by
  rw [next, next, hagree start hoff]

/-- A walk that ends in one tree ends at the same place in a tree that differs from it only below a
place which no walk gets past in the one. -/
theorem walk_of_agreeOff (hagree : AgreeOff place t u) (hclosed : t.Closed place)
    {names : List String} {p : Place} (hstart : NotBelow place start)
    (h : t.walk start names = .ok p) : u.walk start names = .ok p ∧ NotBelow place p := by
  induction names generalizing start with
  | nil =>
    cases h
    exact ⟨rfl, hstart⟩
  | cons name names ih =>
    by_cases hoff : place <+: start
    · rw [hstart hoff, walk] at h
      split at h
      · cases h
      · cases h
      · next hthere => exact absurd hthere hclosed
    · rw [walk_cons] at h ⊢
      rw [next_of_agreeOff hagree hoff]
      cases hnext : t.next start name with
      | error fault =>
        rw [hnext] at h
        cases h
      | ok q =>
        rw [hnext] at h
        exact ih (notBelow_next hoff hnext) h

/-- Walks are the same in two trees that differ only below a place which neither has. -/
theorem walk_eq_of_agreeOff (hagree : AgreeOff place t u) (hfree : t.at? place = none)
    (hfree' : u.at? place = none) (hstart : NotBelow place start) (names : List String) :
    u.walk start names = t.walk start names := by
  induction names generalizing start with
  | nil => rfl
  | cons name names ih =>
    by_cases hoff : place <+: start
    · rw [hstart hoff, walk, walk, hfree, hfree']
    · rw [walk_cons, walk_cons, next_of_agreeOff hagree hoff]
      cases hnext : t.next start name with
      | error fault => rfl
      | ok q => exact ih (notBelow_next hoff hnext)

/-! ### Paths -/

/-- Where the walk along a path starts. -/
def origin (path : String) : Place := if Files.Path.isAbsolute path then ["/"] else []

theorem notBelow_origin (h : place ≠ []) (path : String) : NotBelow place (origin path) := by
  rw [origin]
  split
  · intro hbelow
    rcases List.prefix_cons_iff.mp hbelow with hnil | ⟨rest, rfl, hrest⟩
    · exact absurd hnil h
    · rw [List.prefix_nil.mp hrest]
  · intro hbelow
    exact absurd (List.prefix_nil.mp hbelow) h

/-- Whether a path is one that can be walked at all. -/
def IsWalkable (path : String) : Prop :=
  '\x00' ∉ path.toList ∧ path ≠ "" ∧ (Text.Utf8.encode path).length ≤ pathLimit

theorem resolve_of_isWalkable (h : IsWalkable path) (t : Tree) :
    t.resolve path = t.walk (origin path) (Files.Path.split path) := by
  obtain ⟨hnul, hempty, hlong⟩ := h
  simp [resolve, origin, hnul, hempty, Nat.not_lt.mpr hlong]

theorem resolve_of_not_isWalkable (h : ¬ IsWalkable path) (t u : Tree) :
    u.resolve path = t.resolve path ∧ ∀ p, t.resolve path ≠ .ok p := by
  simp only [IsWalkable, not_and_or, not_not, Nat.not_le] at h
  simp only [resolve]
  split
  · exact ⟨rfl, fun p hp => by cases hp⟩
  · next hnul =>
    split
    · exact ⟨rfl, fun p hp => by cases hp⟩
    · next hempty =>
      split
      · exact ⟨rfl, fun p hp => by cases hp⟩
      · next hlong => simp_all

theorem resolve_of_agreeOff (hagree : AgreeOff place t u) (hclosed : t.Closed place)
    {p : Place} (h : t.resolve path = .ok p) : u.resolve path = .ok p ∧ NotBelow place p := by
  by_cases hpath : IsWalkable path
  · rw [resolve_of_isWalkable hpath] at h ⊢
    exact walk_of_agreeOff hagree hclosed (notBelow_origin hclosed.ne_nil path) h
  · exact absurd h ((resolve_of_not_isWalkable hpath t u).2 p)

theorem open?_eq_ok {entry : Files.Entry} :
    t.open? path = .ok entry ↔ ∃ p, t.resolve path = .ok p ∧ t.at? p = some entry := by
  rw [open?]
  cases hp : t.resolve path with
  | error fault => simp
  | ok p =>
    cases hentry : t.at? p with
    | none => simp [hentry]
    | some other => simp [hentry]

/-- Every path that leads elsewhere names the same in both trees. -/
def SameBut (path : String) (t u : Tree) : Prop :=
  ∀ other, (∀ place, t.resolve path = .ok place → t.resolve other ≠ .ok place) →
    ∀ entry, u.open? other = .ok entry ↔ t.open? other = .ok entry

theorem SameBut.refl (path : String) (t : Tree) : SameBut path t t := fun _ _ _ => Iff.rfl

/-- Two trees that differ only at a file differ only in what names the file. -/
theorem sameBut_of_agreeOff (hplace : t.resolve path = .ok place) (hagree : AgreeOff place t u)
    (hclosed : t.Closed place) (hclosed' : u.Closed place) : SameBut path t u := by
  intro other hother entry
  rw [open?_eq_ok, open?_eq_ok]
  refine exists_congr fun p => ?_
  have hresolve : u.resolve other = .ok p ↔ t.resolve other = .ok p :=
    ⟨fun h => (resolve_of_agreeOff hagree.symm hclosed' h).1,
      fun h => (resolve_of_agreeOff hagree hclosed h).1⟩
  rw [hresolve]
  refine and_congr_right fun hp => ?_
  have hoff : ¬ place <+: p := by
    intro hbelow
    obtain rfl := (resolve_of_agreeOff hagree hclosed hp).2 hbelow
    exact hother p hplace hp
  rw [hagree p hoff]

/-- Every path names the same in both trees. -/
def Alike (t u : Tree) : Prop := ∀ path, u.open? path = t.open? path

/-- Trees that differ only below a place which neither has cannot be told apart. -/
theorem alike_of_agreeOff (hagree : AgreeOff place t u) (hfree : t.at? place = none)
    (hfree' : u.at? place = none) : Alike t u := by
  intro path
  by_cases hpath : IsWalkable path
  · have hstart := notBelow_origin (ne_nil_of_free hfree) path
    rw [open?, open?, resolve_of_isWalkable hpath, resolve_of_isWalkable hpath,
      walk_eq_of_agreeOff hagree hfree hfree' hstart]
    cases hp : t.walk (origin path) (Files.Path.split path) with
    | error fault => rfl
    | ok p =>
      have hat : u.at? p = t.at? p := by
        by_cases hoff : place <+: p
        · rw [(walk_of_agreeOff hagree (closed_of_free hfree) hstart hp).2 hoff, hfree, hfree']
        · exact hagree p hoff
      simp only [hat]
  · obtain ⟨hsame, hno⟩ := resolve_of_not_isWalkable hpath t u
    rw [open?, open?, hsame]
    cases hp : t.resolve path with
    | error fault => rfl
    | ok p => exact absurd hp (hno p)

end SqlBackup.Scripted.Tree
