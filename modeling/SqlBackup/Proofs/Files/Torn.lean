import Mathlib
import SqlBackup.Proofs.Files.Host
import SqlBackup.Proofs.Files.Root
import SqlBackup.Proofs.Scripted.Calls

/-!
# Calls that are cut off

What runs can be cut off in the middle of a call. Most calls are made in a single step, and so is the
renaming of a file; of the others a part has been done.
-/
namespace SqlBackup.Scripted.Tree

variable {t u v : Tree} {place other : Place} {path : String} {call : Files.Call}
  {calls : List Files.Call} {reply : Except String call.Reply}

/-- What a tree has become by a part of a call. -/
inductive Torn (t : Tree) : Files.Call → Tree → Prop
  /-- Of the bytes to append some have been written. -/
  | append (path : String) {part bytes : List UInt8} (h : part <+: bytes) :
      Torn t (.append path bytes) (t.append path part).2
  /-- Of the directories to make some have been made. -/
  | makeDirectories (path : String) {names : List String}
      (h : names <+: Files.Path.components path) :
      Torn t (.makeDirectories path) (t.makePath (origin path) names).2
  /-- Of what is in the directory to remove some has been removed. -/
  | removeTree {path : String} {place : Place} (places : List Place)
      (hplace : t.resolve path = .ok place) (hbelow : ∀ other ∈ places, place <+: other) :
      Torn t (.removeTree path) (places.foldl prune t)

/-- What a tree has become when these calls were waited for and some of them had been begun. -/
inductive CutOff (t : Tree) (calls : List Files.Call) : Tree → Prop
  | nothing : CutOff t calls t
  | torn {u v : Tree} {call : Files.Call} (h : CutOff t calls u) (hcall : call ∈ calls)
      (htorn : u.Torn call v) : CutOff t calls v

/-- What a part of every call keeps, a cut keeps. -/
theorem CutOff.keeps (h : t.CutOff calls u) (kept : Tree → Prop) (ht : kept t)
    (hkept : ∀ call ∈ calls, ∀ v w, kept v → v.Torn call w → kept w) : kept u := by
  induction h with
  | nothing => exact ht
  | torn _ hcall htorn ih => exact hkept _ hcall _ _ ih htorn

theorem CutOff.eq (h : t.CutOff [] u) : u = t := by
  cases h with
  | nothing => rfl
  | torn _ hcall _ => cases hcall

theorem Answers.exists_ok (h : t.Answers call reply u) : ∃ value, reply = .ok value := by
  cases h <;> exact ⟨_, rfl⟩

/-! ### Removing -/

/-- The tree has become another by taking out some of what is at a place or below it. -/
structure Thinned (place : Place) (t u : Tree) : Prop where
  agree : AgreeOff place t u
  free : ∀ other, t.at? other = none → u.at? other = none

theorem thinned_refl (place : Place) (t : Tree) : Thinned place t t :=
  ⟨AgreeOff.refl place t, fun _ h => h⟩

theorem Thinned.trans (h : Thinned place t u) (h' : Thinned place u v) : Thinned place t v :=
  ⟨h.agree.trans h'.agree, fun other hfree => h'.free other (h.free other hfree)⟩

theorem thinned_prune (h : place <+: other) (t : Tree) : Thinned place t (t.prune other) := by
  obtain ⟨rest, rfl⟩ := h
  refine ⟨(agreeOff_prune _ t).above, fun other hfree => ?_⟩
  by_cases hbelow : place ++ rest <+: other
  · exact at?_prune_below hbelow (ne_nil_of_free hfree)
  · have hkept : (t.prune (place ++ rest)).at? other = t.at? other :=
      at?_prune_of_not_prefix hbelow
    rw [hkept, hfree]

theorem thinned_foldl_prune {places : List Place} (h : ∀ other ∈ places, place <+: other) :
    Thinned place t (places.foldl prune t) := by
  induction places generalizing t with
  | nil => exact thinned_refl place t
  | cons below places ih =>
    rw [List.forall_mem_cons] at h
    exact (thinned_prune h.1 t).trans (ih h.2)

theorem nodup_namesAt_foldl_prune (h : (t.namesAt place).Nodup) (places : List Place) :
    ((places.foldl prune t).namesAt place).Nodup := by
  induction places generalizing t with
  | nil => exact h
  | cons below places ih => exact ih (nodup_namesAt_prune h)

/-- A directory is removed with what is in it, or nothing is changed. -/
theorem Answers.thinned {reply : Except String (Files.Call.Reply (.removeTree path))}
    (h : t.Answers (.removeTree path) reply u) (hplace : t.LeadsTo path place) :
    Thinned place t u := by
  cases h with
  | refused _ _ h => exact absurd rfl (h path)
  | done =>
    refine edit_keeps (Thinned place t) (thinned_refl place t) fun p v hp hv => ?_
    obtain rfl := hplace p hp
    split at hv
    · cases hv
    · cases hv
    · cases hv
      exact thinned_prune List.prefix_rfl t

theorem Torn.thinned (h : t.Torn (.removeTree path) u) (hplace : t.LeadsTo path place) :
    Thinned place t u := by
  cases h with
  | removeTree places hp hbelow =>
    obtain rfl := hplace _ hp
    exact thinned_foldl_prune hbelow

/-! ### Other calls -/

theorem Torn.agreeOff (h : t.Torn call u) (hcall : call.IsOn path) (hplace : t.LeadsTo path place) :
    AgreeOff place t u := by
  cases h with
  | append =>
    cases hcall
    exact agreeOff_call (.append _) hplace
  | makeDirectories => cases hcall
  | removeTree => cases hcall

theorem Torn.paved (h : t.Torn (.makeDirectories path) u) : Paved path t u := by
  cases h with
  | makeDirectories _ h => exact ⟨_, h, rfl⟩

/-- A file is given another name in the same directory, or nothing is changed. -/
theorem Answers.agreeUpTo_rename {source target a b : String}
    {reply : Except String (Files.Call.Reply (.rename source target))}
    (h : t.Answers (.rename source target) reply u) (hsource : t.LeadsTo source (place ++ [a]))
    (htarget : t.LeadsTo target (place ++ [b])) : AgreeUpTo place t u := by
  obtain ⟨fault | ⟨⟩, rfl⟩ := h.exists_ok
  · rw [h.rename_error]
    exact AgreeUpTo.refl place t
  · have hcall := h.eq_call nofun
    obtain ⟨-, -, hothers⟩ := at?_rename hcall hsource htarget (by simp)
    intro other hoff
    have habove (name : String) : ¬ place ++ [name] <+: other := by
      intro hbelow
      have heq := hoff ((List.prefix_append place [name]).trans hbelow)
      simpa [heq] using hbelow.length_le
    exact hothers other (habove a) fun heq => habove b (heq ▸ List.prefix_rfl)

theorem Answers.agreeOff_rename {source target a b : String}
    {reply : Except String (Files.Call.Reply (.rename source target))}
    (h : t.Answers (.rename source target) reply u) (hsource : t.LeadsTo source (place ++ [a]))
    (htarget : t.LeadsTo target (place ++ [b])) : AgreeOff place t u :=
  fun other hoff => h.agreeUpTo_rename hsource htarget other fun hbelow => absurd hbelow hoff

/-- No call makes a directory list a name twice, whatever comes of it. -/
theorem Answers.nodup_namesAt (h : t.Answers call reply u) (hnodup : (t.namesAt place).Nodup) :
    (u.namesAt place).Nodup := by
  cases h with
  | done => exact nodup_namesAt_call hnodup call
  | refused => exact hnodup
  | broken => exact hnodup
  | @cut path part => exact nodup_namesAt_call hnodup (.append path part)
  | halted => exact nodup_namesAt_makePath hnodup _ _

theorem Torn.nodup_namesAt (h : t.Torn call u) (hnodup : (t.namesAt place).Nodup) :
    (u.namesAt place).Nodup := by
  cases h with
  | @append path part => exact nodup_namesAt_call hnodup (.append path part)
  | makeDirectories => exact nodup_namesAt_makePath hnodup _ _
  | removeTree places => exact nodup_namesAt_foldl_prune hnodup places

end SqlBackup.Scripted.Tree
