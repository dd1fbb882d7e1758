import Mathlib
import SqlBackup.Files.Path

/-!
# Paths of the files in a directory

The names on the way to a file in a directory are those on the way to the directory, and that of
the file behind them.
-/
namespace SqlBackup.Files.Path

/-- The name of something in a directory. The directory itself and that above it have none. -/
structure IsName (name : String) : Prop where
  noSlash : '/' ∉ name.toList
  ne_empty : name ≠ ""
  ne_dot : name ≠ "."
  ne_dots : name ≠ ".."

theorem splitFrom_slash (part cs rest : List Char) :
    splitFrom part (cs ++ '/' :: rest) = splitFrom part cs ++ splitFrom [] rest := by
  induction cs generalizing part with
  | nil => simp [splitFrom]
  | cons c cs ih =>
    simp only [List.cons_append, splitFrom]
    split
    · rw [ih, List.cons_append]
    · exact ih (c :: part)

theorem splitFrom_of_not_mem {cs : List Char} (h : '/' ∉ cs) (part : List Char) :
    splitFrom part cs = [part.reverse ++ cs] := by
  induction cs generalizing part with
  | nil => simp [splitFrom]
  | cons c cs ih =>
    rw [List.mem_cons, not_or] at h
    have hslash : (c == '/') = false := by simpa using Ne.symm h.1
    simp [splitFrom, hslash, ih h.2]

theorem isAbsolute_of_not_mem {path : String} (h : '/' ∉ path.toList) :
    isAbsolute path = false := by
  rw [isAbsolute, beq_eq_false_iff_ne]
  intro hhead
  exact h (List.mem_of_mem_head? hhead)

/-- A path of something in a directory ends as the name of that does. -/
theorem getLast?_join {base name : String} (h : '/' ∉ name.toList) (hne : name ≠ "") :
    (join base name).toList.getLast? = name.toList.getLast? := by
  have hname : name.toList ≠ [] := by simpa using hne
  rw [join, if_neg (by simp [isAbsolute_of_not_mem h])]
  split
  · rw [String.toList_append, List.getLast?_append_of_ne_nil _ hname]
  · rw [String.toList_append, List.getLast?_append_of_ne_nil _ hname]

/-- A path that names a directory without a slash at its end. -/
def IsDirectory (path : String) : Prop :=
  ∃ c, c ≠ '/' ∧ path.toList.getLast? = some c

theorem isDirectory_join {base name : String} (h : '/' ∉ name.toList) (hne : name ≠ "") :
    IsDirectory (join base name) := by
  have hname : name.toList ≠ [] := by simpa using hne
  refine ⟨name.toList.getLast hname, ?_, ?_⟩
  · intro hslash
    exact h (hslash ▸ List.getLast_mem hname)
  · rw [getLast?_join h hne, List.getLast?_eq_some_getLast hname]

section Below

variable {base name : String}

theorem join_eq (hbase : IsDirectory base) (h : '/' ∉ name.toList) :
    join base name = base ++ "/" ++ name := by
  obtain ⟨c, hc, hlast⟩ := hbase
  have hempty : base.isEmpty = false := by
    cases hb : base.isEmpty with
    | false => rfl
    | true =>
      rw [String.isEmpty_iff] at hb
      simp [hb] at hlast
  simp [join, isAbsolute_of_not_mem h, hempty, hlast, hc]

theorem split_join (hbase : IsDirectory base) (h : '/' ∉ name.toList) :
    split (join base name) = split base ++ [name] := by
  have hlist : (base ++ "/" ++ name).toList = base.toList ++ '/' :: name.toList := by
    simp [String.toList_append]
  rw [join_eq hbase h, split, hlist, splitFrom_slash, splitFrom_of_not_mem h]
  simp [split, String.ofList_toList]

/-- The names on the way to what is in a directory. A slash at the end of the path of the directory
has an empty name behind it. -/
def front (base : String) : List String :=
  if base.toList.getLast?.all (· == '/') then (split base).dropLast else split base

theorem split_join_front (base : String) (h : '/' ∉ name.toList) :
    split (join base name) = front base ++ [name] := by
  rw [front]
  split
  · next hend =>
    cases hlast : base.toList.getLast? with
    | none =>
      have hempty : base = "" := by simpa using hlast
      subst hempty
      simp [join, isAbsolute_of_not_mem h, split, splitFrom_of_not_mem h, splitFrom]
    | some c =>
      obtain rfl : c = '/' := by simpa [hlast] using hend
      obtain ⟨chars, hchars⟩ := List.getLast?_eq_some_iff.mp hlast
      have hjoin : (join base name).toList = chars ++ '/' :: name.toList := by
        simp [join, isAbsolute_of_not_mem h, hchars]
      rw [split, split, hjoin, hchars, splitFrom_slash, splitFrom_slash, splitFrom_of_not_mem h]
      simp [splitFrom]
  · next hend =>
    cases hlast : base.toList.getLast? with
    | none => simp [hlast] at hend
    | some c => exact split_join ⟨c, by simpa [hlast] using hend, hlast⟩ h

theorem split_eq_front (hbase : base ≠ "") :
    split base = front base ∨ split base = front base ++ [""] := by
  rw [front]
  split
  · next hend =>
    right
    obtain ⟨c, hlast⟩ := Option.ne_none_iff_exists'.mp
      (show base.toList.getLast? ≠ none by simpa using hbase)
    obtain rfl : c = '/' := by simpa [hlast] using hend
    obtain ⟨chars, hchars⟩ := List.getLast?_eq_some_iff.mp hlast
    rw [split, hchars, splitFrom_slash]
    simp [splitFrom]
  · exact .inl rfl

theorem components_eq_front (base : String) :
    components base = (front base).filter fun part => part != "" && part != "." := by
  by_cases hbase : base = ""
  · subst hbase
    rfl
  · rcases split_eq_front hbase with hsplit | hsplit
    · rw [components, hsplit]
    · rw [components, hsplit, List.filter_append]
      simp

end Below

section Relative

variable {path : String}

theorem isAbsolute_join (base : String) (h : isAbsolute path = false) :
    isAbsolute (join base path) = isAbsolute base := by
  rw [join, if_neg (by simp [h])]
  by_cases hbase : base = ""
  · subst hbase
    exact h
  · obtain ⟨c, cs, hcs⟩ := List.exists_cons_of_ne_nil (show base.toList ≠ [] by simpa using hbase)
    split <;> simp [isAbsolute, hcs]

/-- The names on the way to something in a directory. -/
theorem components_join (base : String) (h : isAbsolute path = false) :
    components (join base path) = components base ++ components path := by
  have hslash (front : List Char) :
      components (String.ofList (front ++ '/' :: path.toList)) =
        components (String.ofList front) ++ components path := by
    simp [components, split, splitFrom_slash]
  rw [join, if_neg (by simp [h])]
  split
  · next hend =>
    rw [Bool.or_eq_true, String.isEmpty_iff, beq_iff_eq] at hend
    rcases hend with rfl | hlast
    · rfl
    · obtain ⟨front, hfront⟩ := List.getLast?_eq_some_iff.mp hlast
      have hbase : components base = components (String.ofList front) := by
        simp [components, split, hfront, splitFrom_slash, splitFrom]
      have hjoin : base ++ path = String.ofList (front ++ '/' :: path.toList) := by
        rw [← String.toList_inj]
        simp [hfront]
      rw [hbase, hjoin, hslash]
  · have hjoin : base ++ "/" ++ path = String.ofList (base.toList ++ '/' :: path.toList) := by
      rw [← String.toList_inj]
      simp
    rw [hjoin, hslash, String.ofList_toList]

/-- A single name is all of its path. -/
theorem components_of_isName (h : IsName path) : components path = [path] := by
  rw [components, split, splitFrom_of_not_mem h.noSlash]
  simp [h.ne_empty, h.ne_dot]

end Relative

end SqlBackup.Files.Path
