import Mathlib
import SqlBackup.Proofs.Backup.Confinement
import SqlBackup.Proofs.Pool.SideBySide

/-!
# The directory that a backup is given

Whatever it is answered, a backup tries the names of its time in their order, until a directory has
been made under one of them. That one is its own: all that it does from then on it does for that
directory, and it does nothing more once it has removed it.
-/
namespace SqlBackup

open Files.Path (IsName join)

variable {σ : Type} {host : Host σ} {s s' : σ}

/-- A directory that was to be made, and the answer. -/
def Asked.tried? : Asked → Option (String × Except String (Except IoFault Unit))
  | ⟨.file (.makeDirectory path), answer⟩ => some (path, answer)
  | _ => none

namespace Backup

variable {settings : Settings} {request : Request} {draft : Draft} {talk : List Asked}
  {asked : Asked} {i : Calendar.Instant} {n : Nat} {id : String}

/-- The directories that were to be made, with the answers. -/
def tries (talk : List Asked) : List (String × Except String (Except IoFault Unit)) :=
  talk.filterMap Asked.tried?

/-- The path of a directory that could not be made because something was there. -/
def collided? : String × Except String (Except IoFault Unit) → Option String
  | (path, .ok (.error (.os .alreadyExists))) => some path
  | _ => none

/-- Where something was there already. -/
def collisions (talk : List Asked) : List String := (tries talk).filterMap collided?

/-- A directory was made and has not been removed. -/
structure Occupies (talk : List Asked) (path : String) : Prop where
  made : ⟨.file (.makeDirectory path), .ok (.ok ())⟩ ∈ talk
  kept : ⟨.file (.removeTree path), .ok (.ok ())⟩ ∉ talk

/-- The server has listed these databases. -/
def Listed (talk : List Asked) (listed : List String) : Prop :=
  ∃ session result,
    ⟨.session session (.query Sql.listDatabases), .ok (.ok result)⟩ ∈ talk ∧
      result.firstColumn = listed

/-- These are the databases to back up, as far as the server had to list them. -/
def Chosen (request : Request) (talk : List Asked) (databases : List String) : Prop :=
  ∃ listed, (request.databases = [] → Listed talk listed) ∧
    databases = meant request.databases listed

/-! ### Trying names -/

/-- The first names of a time, each of which was taken. -/
def taken (settings : Settings) (i : Calendar.Instant) (n : Nat) :
    List (String × Except String (Except IoFault Unit)) :=
  (List.range n).map fun k =>
    (settings.directory (numbered i.compact k), .ok (.error (.os .alreadyExists)))

/-- Names have been tried in their order, and all of them were taken but for the last. -/
def Searched (settings : Settings) (talk : List Asked) : Prop :=
  ∃ i n, tries talk = taken settings i n ∨ ∃ answer, tries talk =
    taken settings i n ++ [(settings.directory (numbered i.compact n), answer)]

/-- The directory of a backup has been made. -/
def Given (settings : Settings) (talk : List Asked) (id : String) : Prop :=
  ∃ i n, id = numbered i.compact n ∧
    tries talk = taken settings i n ++ [(settings.directory id, .ok (.ok ()))]

/-- No directory was to be removed. -/
def Unremoved (talk : List Asked) : Prop :=
  ∀ asked ∈ talk, ∀ path, asked.request ≠ .file (.removeTree path)

theorem tries_concat (talk : List Asked) (asked : Asked) :
    tries (talk ++ [asked]) = tries talk ++ asked.tried?.toList := by
  rw [tries, List.filterMap_append, ← tries]
  cases h : asked.tried? <;> simp [h]

theorem tries_other (h : ∀ path, asked.request ≠ .file (.makeDirectory path)) :
    tries (talk ++ [asked]) = tries talk := by
  have hnone : asked.tried? = none := by
    unfold Asked.tried?
    split
    · exact absurd rfl (h _)
    · rfl
  rw [tries_concat, hnone, Option.toList_none, List.append_nil]

theorem taken_succ (settings : Settings) (i : Calendar.Instant) (n : Nat) :
    taken settings i (n + 1) = taken settings i n ++
      [(settings.directory (numbered i.compact n), .ok (.error (.os .alreadyExists)))] := by
  simp [taken, List.range_succ]

theorem numbered_injective (stamp : String) : Function.Injective (numbered stamp) := by
  have hlonger (n : Nat) (h : n ≠ 0) : numbered stamp n ≠ stamp := by
    rw [numbered, if_neg h]
    intro heq
    have hlength := congrArg (fun text : String => text.toList.length) heq
    simp at hlength
  intro a b h
  by_cases ha : a = 0
  · by_contra hb
    subst ha
    exact hlonger b (Ne.symm hb) h.symm
  · by_cases hb : b = 0
    · subst hb
      exact absurd h (hlonger a ha)
    · rw [numbered, numbered, if_neg ha, if_neg hb] at h
      have hdigits := congrArg String.toList h
      simp only [String.toList_append, List.append_cancel_left_eq] at hdigits
      have hrepr (n : Nat) : (toString n).toList = Nat.toDigits 10 n := Nat.toList_repr
      rw [hrepr, hrepr] at hdigits
      rw [← Nat.ofDigitChars_ten_toDigits (n := a), hdigits, Nat.ofDigitChars_ten_toDigits]

theorem isName_numbered (i : Calendar.Instant) (n : Nat) : IsName (numbered i.compact n) :=
  IsNamed.isName ⟨n, rfl⟩

theorem filterMap_taken (settings : Settings) (i : Calendar.Instant) (n : Nat) :
    (taken settings i n).filterMap collided? =
      (List.range n).map fun k => settings.directory (numbered i.compact k) := by
  simp [taken, List.filterMap_map, Function.comp_def, collided?]

theorem nodup_taken (settings : Settings) (i : Calendar.Instant) (n : Nat) :
    ((taken settings i n).filterMap collided?).Nodup := by
  rw [filterMap_taken]
  refine List.nodup_range.map fun a b h => numbered_injective i.compact ?_
  exact Files.Path.join_injOn settings.root (isName_numbered i a) (isName_numbered i b) h

/-- No name is tried again, and at most one was tried that was not taken. -/
theorem Searched.bounded (h : Searched settings talk) :
    (collisions talk).Nodup ∧ (tries talk).length ≤ (collisions talk).length + 1 := by
  have hall {i n} (htries : tries talk = taken settings i n) :
      (collisions talk).Nodup ∧ (tries talk).length ≤ (collisions talk).length + 1 := by
    rw [collisions, htries]
    refine ⟨nodup_taken settings i n, ?_⟩
    rw [filterMap_taken, taken, List.length_map, List.length_map]
    omega
  obtain ⟨i, n, htries | ⟨answer, htries⟩⟩ := h
  · exact hall htries
  · cases hlast : collided? (settings.directory (numbered i.compact n), answer) with
    | some path =>
      unfold collided? at hlast
      split at hlast
      · next heq =>
        obtain ⟨rfl, rfl⟩ := Prod.mk.inj heq
        exact hall (htries.trans (taken_succ settings i n).symm)
      · cases hlast
    | none =>
      rw [collisions, htries, List.filterMap_append, List.filterMap_cons, hlast,
        List.filterMap_nil, List.append_nil]
      refine ⟨nodup_taken settings i n, ?_⟩
      rw [filterMap_taken, taken, List.length_append, List.length_map, List.length_map]
      simp

theorem unremoved_concat : Unremoved (talk ++ [asked]) ↔
    Unremoved talk ∧ ∀ path, asked.request ≠ .file (.removeTree path) := by
  simp only [Unremoved, List.forall_mem_append, List.forall_mem_singleton]

theorem Chosen.concat {databases : List String} (h : Chosen request talk databases)
    (later : List Asked) : Chosen request (talk ++ later) databases := by
  obtain ⟨listed, hlisted, hdatabases⟩ := h
  refine ⟨listed, fun hempty => ?_, hdatabases⟩
  obtain ⟨session, result, hasked, hresult⟩ := hlisted hempty
  exact ⟨session, result, List.mem_append_left later hasked, hresult⟩

theorem mem_tries {path : String} {answer : Except String (Except IoFault Unit)} :
    (path, answer) ∈ tries talk ↔ ⟨.file (.makeDirectory path), answer⟩ ∈ talk := by
  rw [tries, List.mem_filterMap]
  constructor
  · rintro ⟨asked, hasked, heq⟩
    unfold Asked.tried? at heq
    split at heq
    · cases heq
      exact hasked
    · cases heq
  · exact fun h => ⟨_, h, rfl⟩

theorem eq_of_mem_taken {path : String} {answer : Except String (Except IoFault Unit)}
    (h : (path, answer) ∈ taken settings i n) : answer = .ok (.error (.os .alreadyExists)) := by
  obtain ⟨k, -, heq⟩ := List.mem_map.mp h
  exact (Prod.mk.inj heq).2.symm

/-- The one directory that was made is the one that is given. -/
theorem Given.eq_of_made (h : Given settings talk id) {path : String}
    (hmade : ⟨.file (.makeDirectory path), .ok (.ok ())⟩ ∈ talk) :
    path = settings.directory id := by
  obtain ⟨i, n, -, htries⟩ := h
  rw [← mem_tries, htries, List.mem_append, List.mem_singleton] at hmade
  rcases hmade with htaken | hlast
  · cases eq_of_mem_taken htaken
  · exact (Prod.mk.inj hlast).1

theorem Given.made (h : Given settings talk id) :
    ⟨.file (.makeDirectory (settings.directory id)), .ok (.ok ())⟩ ∈ talk := by
  obtain ⟨i, n, -, htries⟩ := h
  rw [← mem_tries, htries]
  exact List.mem_append_right _ (List.mem_singleton_self _)

/-- As long as all names were taken none is given. -/
theorem not_given_of_taken (h : tries talk = taken settings i n) : ¬ Given settings talk id := by
  intro hgiven
  have hmade := hgiven.made
  rw [← mem_tries, h] at hmade
  cases eq_of_mem_taken hmade

theorem Searched.given (h : Searched settings talk) {path : String}
    (hmade : ⟨.file (.makeDirectory path), .ok (.ok ())⟩ ∈ talk) :
    ∃ id, Given settings talk id ∧ path = settings.directory id := by
  obtain ⟨i, n, htries | ⟨answer, htries⟩⟩ := h
  · rw [← mem_tries, htries] at hmade
    cases eq_of_mem_taken hmade
  · have hlast := hmade
    rw [← mem_tries, htries, List.mem_append, List.mem_singleton] at hlast
    rcases hlast with htaken | hlast
    · cases eq_of_mem_taken htaken
    · obtain ⟨rfl, rfl⟩ := Prod.mk.inj hlast
      exact ⟨_, ⟨i, n, rfl, htries⟩, rfl⟩

theorem Given.isNamed (h : Given settings talk id) : ∃ i, IsNamed id i := by
  obtain ⟨i, n, hid, -⟩ := h
  exact ⟨i, n, hid⟩

theorem Given.isName (h : Given settings talk id) : IsName id := by
  obtain ⟨i, hnamed⟩ := h.isNamed
  exact hnamed.isName

theorem Given.unique {other : String} (h : Given settings talk id)
    (h' : Given settings talk other) : other = id :=
  Files.Path.join_injOn settings.root h'.isName h.isName (h.eq_of_made h'.made)

theorem Given.searched (h : Given settings talk id) : Searched settings talk := by
  obtain ⟨i, n, rfl, htries⟩ := h
  exact ⟨i, n, .inr ⟨_, htries⟩⟩

theorem Given.other (h : Given settings talk id)
    (hother : ∀ path, asked.request ≠ .file (.makeDirectory path)) :
    Given settings (talk ++ [asked]) id := by
  obtain ⟨i, n, hid, htries⟩ := h
  exact ⟨i, n, hid, (tries_other hother).trans htries⟩

/-! ### Planning -/

/-- What is asked to plan a backup when the first `n` names have been tried. -/
inductive Plans (settings : Settings) (i : Calendar.Instant) (n : Nat) : SqlBackup.Request → Prop
  | silent {request : SqlBackup.Request} (h : request.IsSilent) : Plans settings i n request
  | root : Plans settings i n (.file (.makeDirectories settings.root))
  | next : Plans settings i n (.file (.makeDirectory (settings.directory (numbered i.compact n))))

/-- What is asked next to plan a backup: names are tried one after the other. -/
def PlansSince (settings : Settings) (talk : List Asked) (request : SqlBackup.Request) : Prop :=
  ∃ i n, tries talk = taken settings i n ∧ Plans settings i n request

/-- What a backup has been given, or that it has been given nothing. -/
def Allocated (settings : Settings) (talk : List Asked) : Except Fault String → Prop
  | .ok id => Given settings talk id
  | .error _ => ∀ id, ¬ Given settings talk id

/-- A draft is that of a backup that has been given its directory. -/
def Drafted (settings : Settings) (request : Request) (talk : List Asked) : Except Fault Draft → Prop
  | .ok draft => Given settings talk draft.id ∧ Chosen request talk draft.databases
  | .error _ => ∀ id, ¬ Given settings talk id

/-- A plan is that of a backup that has been given its directory. Where there is no plan, none has been
given. -/
def Planned (settings : Settings) (request : Request) (talk : List Asked) :
    Except Fault (Plan Manifest.File Manifest) → Prop
  | .ok made => ∃ draft : Draft, made.jobs = exportJobs settings request draft ∧
      made.conclude = conclude settings request draft ∧ Given settings talk draft.id ∧
        Chosen request talk draft.databases
  | .error _ => ∀ id, ¬ Given settings talk id

theorem Plans.ne_removeTree {asked : SqlBackup.Request} (h : Plans settings i n asked)
    (path : String) : asked ≠ .file (.removeTree path) := by
  cases h with
  | silent hsilent => exact hsilent _
  | root => simp
  | next => simp

/-- With each request of the planning the names are still tried in their order. -/
theorem PlansSince.searched (h : PlansSince settings talk asked.request) :
    Searched settings (talk ++ [asked]) := by
  obtain ⟨i, n, htries, hplans⟩ := h
  obtain ⟨made, answer⟩ := asked
  cases hplans with
  | silent hsilent => exact ⟨i, n, .inl ((tries_other fun path => hsilent _).trans htries)⟩
  | root => exact ⟨i, n, .inl ((tries_other (by simp)).trans htries)⟩
  | next => exact ⟨i, n, .inr ⟨answer, by rw [tries_concat, htries]; rfl⟩⟩

theorem not_given_of_tries {path : String} {answer : Except String (Except IoFault Unit)}
    (h : tries talk = taken settings i n ++ [(path, answer)]) (hanswer : answer ≠ .ok (.ok ())) :
    ¬ Given settings talk id := by
  intro hgiven
  have hmade := hgiven.made
  rw [← mem_tries, h, List.mem_append, List.mem_singleton] at hmade
  rcases hmade with htaken | hlast
  · cases eq_of_mem_taken htaken
  · exact hanswer (Prod.mk.inj hlast).2.symm

theorem asksSince_claim (i : Calendar.Instant) (trials : Nat)
    (htries : tries talk = taken settings i n) :
    (claim settings i.compact trials n).run.AsksSince (PlansSince settings) (Allocated settings)
      talk := by
  induction trials generalizing n talk with
  | zero => exact fun _ => not_given_of_taken htries
  | succ trials ih =>
    rw [claim]
    refine Work.asksSince_request ⟨i, n, htries, .next⟩ fun answer => ?_
    have htries' : tries (talk ++ [⟨.file (.makeDirectory
        (settings.directory (numbered i.compact n))), .ok answer⟩]) =
        taken settings i n ++ [(settings.directory (numbered i.compact n), .ok answer)] := by
      rw [tries_concat, htries]
      rfl
    split
    · exact ⟨i, n, rfl, htries'⟩
    · exact ih (htries'.trans (taken_succ settings i n).symm)
    · exact fun _ => not_given_of_tries htries' (by simp)

theorem asksSince_allocate (timestamp : Calendar.Instant) (htries : tries talk = []) :
    (allocate settings timestamp).run.AsksSince (PlansSince settings) (Allocated settings) talk := by
  rw [allocate]
  refine Work.asksSince_ofExcept (m := fun talk _ => tries talk = [])
    ⟨⟨timestamp, 0, htries, .root⟩, fun _ => (tries_other (by simp)).trans htries⟩ ?_ ?_
  · exact fun talk _ htries id => not_given_of_taken (i := timestamp) (n := 0) htries
  · exact fun talk _ htries => asksSince_claim timestamp nameTrials htries

/-- As long as no name has been tried, requests that touch no file leave it so. -/
theorem asksSince_silent {α : Type} {work : Work α} (h : work.Asks SqlBackup.Request.IsSilent
    fun _ => True) (htries : tries talk = []) :
    work.run.AsksSince (PlansSince settings) (fun talk _ => tries talk = []) talk := by
  refine (Job.Asks.since h (fun talk => tries talk = [])
    (fun talk asked htries hsilent => ⟨default, 0, htries, .silent hsilent⟩)
    (fun talk asked htries hsilent => (tries_other fun path => hsilent _).trans htries)
    htries).mono fun talk _ hresult => hresult.1

theorem asksSince_chooseDatabases (session : Session) (htries : tries talk = []) :
    (chooseDatabases session request.databases).run.AsksSince (PlansSince settings)
      (fun talk result => tries talk = [] ∧
        ∀ databases, result = .ok databases → Chosen request talk databases) talk := by
  rw [chooseDatabases]
  split
  · next hempty =>
    refine Work.asksSince_ofExcept (m := fun talk answer => tries talk = [] ∧
      ∀ result, answer = .ok result → Listed talk result.firstColumn)
      ⟨⟨default, 0, htries, .silent (SqlBackup.Request.isSilent_session session _)⟩, ?_⟩ ?_ ?_
    · refine fun answer => ⟨(tries_other (by simp)).trans htries, ?_⟩
      rintro result rfl
      exact ⟨session, result, by simp, rfl⟩
    · exact fun talk cause h => ⟨h.1, by simp⟩
    · rintro talk result ⟨htries, hlisted⟩
      refine ⟨htries, ?_⟩
      rintro _ ⟨⟩
      exact ⟨result.firstColumn, fun _ => hlisted result rfl, by rw [meant, if_pos hempty]⟩
  · next hempty =>
    refine ⟨htries, ?_⟩
    rintro _ ⟨⟩
    refine ⟨[], fun hnil => absurd (by rw [hnil]; rfl) hempty, ?_⟩
    rw [meant, if_neg hempty]

/-- Whatever it is answered, a plan for a backup comes about by trying names up to the one that it
is given. -/
theorem asksSince_plan (settings : Settings) (request : Request) :
    (plan settings request).run.AsksSince (PlansSince settings) (Planned settings request) [] := by
  have hnone (talk : List Asked) (htries : tries talk = []) (id : String) :
      ¬ Given settings talk id := not_given_of_taken (i := default) (n := 0) htries
  rw [plan, prepare]
  refine Work.asksSince_bind (m := Drafted settings request) ?_ (fun _ _ h => h)
    fun talk draft h => ⟨draft, rfl, rfl, h.1, h.2⟩
  refine Work.asksSince_bind (asksSince_silent (asks_connect settings) rfl)
    (fun talk _ htries => hnone talk htries) fun talk session htries => ?_
  refine Work.asksSince_bind (asksSince_chooseDatabases session htries)
    (fun talk _ h => hnone talk h.1) fun talk databases h => ?_
  obtain ⟨htries, hchosen⟩ := h
  have hchosen := hchosen databases rfl
  split
  · exact hnone talk htries
  refine Work.asksSince_request
    ⟨default, 0, htries, .silent (by simp [SqlBackup.Request.IsSilent])⟩ fun timestamp => ?_
  refine Work.asksSince_bind ((asksSince_allocate timestamp
    ((tries_other (by simp)).trans htries)).keep (Chosen request · databases)
    (fun _ asked h _ => h.concat [asked]) (hchosen.concat _)) (fun _ _ h => h.2) ?_
  exact fun talk id h => ⟨h.2, h.1⟩

/-! ### Concluding -/

/-- What is asked to conclude a backup. Nothing is asked once the directory is to be removed. -/
def ConcludesSince (directory : String) (talk : List Asked) (request : SqlBackup.Request) : Prop :=
  Unremoved talk ∧ Fills directory request

/-- A backup that is made has kept its directory, and one that has failed was to remove it. -/
def Concluded (settings : Settings) (draft : Draft) (talk : List Asked) :
    Except Fault Manifest → Prop
  | .ok m => m.id = draft.id ∧ Unremoved talk
  | .error _ => ∃ answer, ⟨.file (.removeTree (settings.directory draft.id)), answer⟩ ∈ talk

theorem asksSince_conclude (request : Request)
    (outcomes : List (Pool.Outcome Fault Manifest.File)) (h : Unremoved talk) :
    (conclude settings request draft outcomes).run.AsksSince
      (ConcludesSince (settings.directory draft.id)) (Concluded settings draft) talk := by
  rw [conclude_eq, run_orRemove, Job.asksSince_bind]
  refine ((asks_manifestOf outcomes).since Unremoved (fun talk asked hkept hfills =>
    ⟨hkept, hfills.1⟩) (fun talk asked hkept hfills => ?_) h).mono ?_
  · exact unremoved_concat.mpr ⟨hkept, hfills.2⟩
  · rintro talk result ⟨hkept, hresult⟩
    cases result with
    | ok m =>
      obtain ⟨fs, -, rfl⟩ := hresult m rfl
      exact ⟨rfl, hkept⟩
    | error fault => exact ⟨⟨hkept, .removeTree⟩, fun reply => ⟨.ok reply, by simp⟩⟩

/-! ### Where a backup stands -/

/-- What is known of a backup from what it has asked, whatever it was answered. -/
inductive Stands (settings : Settings) (request : Request) :
    List Asked → Plan.Stage σ Manifest.File Manifest → Prop
  | planning {talk rest} (hsearched : Searched settings talk) (hkept : Unremoved talk)
      (h : rest.AsksSince (PlansSince settings) (Planned settings request) talk) :
      Stands settings request talk (.planning rest)
  | running {talk draft turns} (hgiven : Given settings talk draft.id) (hkept : Unremoved talk)
      (hchosen : Chosen request talk draft.databases) (h : turns.Asks (Dumps settings draft)) :
      Stands settings request talk (.running (conclude settings request draft) turns)
  | concluding {talk draft rest} (hgiven : Given settings talk draft.id)
      (hchosen : Chosen request talk draft.databases)
      (h : rest.AsksSince (ConcludesSince (settings.directory draft.id))
        (Concluded settings draft) talk) :
      Stands settings request talk (.concluding rest)

/-- What a backup may ask next. -/
inductive Due (settings : Settings) (request : Request) (talk : List Asked) :
    SqlBackup.Request → Prop
  | plans {asked : SqlBackup.Request} (h : PlansSince settings talk asked)
      (hkept : Unremoved talk) : Due settings request talk asked
  | fills {asked : SqlBackup.Request} {draft : Draft} (hgiven : Given settings talk draft.id)
      (hkept : Unremoved talk) (hchosen : Chosen request talk draft.databases)
      (h : Dumps settings draft asked ∨ Fills (settings.directory draft.id) asked) :
      Due settings request talk asked

theorem ne_makeDirectory_of_isOn {path : String} {asked : SqlBackup.Request} (h : asked.IsOn path)
    (other : String) :
    asked ≠ .file (.makeDirectory other) ∧ asked ≠ .file (.removeTree other) := by
  constructor
  · rintro rfl
    cases h
  · rintro rfl
    cases h

theorem Dumps.ne {asked : SqlBackup.Request} (h : Dumps settings draft asked) (path : String) :
    asked ≠ .file (.makeDirectory path) ∧ asked ≠ .file (.removeTree path) := by
  obtain ⟨database, -, hon⟩ := h
  exact ne_makeDirectory_of_isOn hon path

theorem Fills.ne_makeDirectory {directory : String} {asked : SqlBackup.Request}
    (h : Fills directory asked) (path : String) : asked ≠ .file (.makeDirectory path) := by
  cases h with
  | writes hwrites =>
    obtain ⟨name, -, -, hon⟩ := hwrites
    exact (ne_makeDirectory_of_isOn hon path).1
  | rename => simp
  | removeTree => simp

/-- No other directory is removed. -/
theorem Fills.eq_of_removeTree {directory path : String}
    (h : Fills directory (.file (.removeTree path))) : path = directory := by
  generalize hremove : SqlBackup.Request.file (.removeTree path) = asked at h
  cases h with
  | writes hwrites =>
    obtain ⟨name, -, -, hon⟩ := hwrites
    exact absurd hremove.symm (ne_makeDirectory_of_isOn hon path).2
  | rename => cases hremove
  | removeTree => simpa using hremove

/-- At each of its steps a backup asks what it may, and it is known where it stands afterwards. -/
theorem Stands.step {stage stage' : Plan.Stage σ Manifest.File Manifest} {asked? : Option Asked}
    (h : Stands settings request talk stage) (hstep : Plan.Step host stage s asked? stage' s') :
    (∀ asked, asked? = some asked → Due settings request talk asked.request) ∧
      Stands settings request (talk ++ asked?.toList) stage' := by
  cases hstep with
  | plan =>
    cases h with
    | planning _ hkept hrest =>
      obtain ⟨hplans, hnext⟩ := hrest
      refine ⟨?_, .planning (PlansSince.searched hplans) ?_ (Job.AsksSince.resume ⟨hplans, hnext⟩ _)⟩
      · rintro _ ⟨⟩
        exact .plans hplans hkept
      · obtain ⟨i, n, -, hplans⟩ := hplans
        exact unremoved_concat.mpr ⟨hkept, hplans.ne_removeTree⟩
  | begin =>
    cases h with
    | planning _ hkept hrest =>
      obtain ⟨draft, hjobs, hconclude, hgiven, hchosen⟩ :
        Planned settings request talk (.ok _) := hrest
      rw [Option.toList_none, List.append_nil, hconclude, hjobs]
      exact ⟨by simp,
        .running hgiven hkept hchosen (Pool.Turns.asks_start asks_dumps)⟩
  | @turn _ turns move turns' _ hturn =>
    cases h with
    | running hgiven hkept hchosen hasks =>
      have hturns : (turns.on s).Asks (Dumps settings _) := ⟨hasks.waiting, hasks.running⟩
      refine ⟨fun asked hasked => ?_, ?_⟩
      · exact .fills hgiven hkept hchosen (.inl (hturns.exchange hturn hasked))
      · cases hexchange : move.exchange? with
        | none =>
          rw [Option.toList_none, List.append_nil]
          exact .running hgiven hkept hchosen (hturns.turn hturn)
        | some asked =>
          have hdumps := hturns.exchange hturn hexchange
          exact .running (hgiven.other fun path => (hdumps.ne path).1)
            (unremoved_concat.mpr ⟨hkept, fun path => (hdumps.ne path).2⟩) (hchosen.concat _)
            (hturns.turn hturn)
  | join =>
    cases h with
    | running hgiven hkept hchosen hasks =>
      rw [Option.toList_none, List.append_nil]
      exact ⟨by simp,
        .concluding hgiven hchosen (asksSince_conclude request _ hkept)⟩
  | conclude =>
    cases h with
    | concluding hgiven hchosen hrest =>
      obtain ⟨⟨hkept, hfills⟩, hnext⟩ := hrest
      refine ⟨?_, .concluding (hgiven.other hfills.ne_makeDirectory) (hchosen.concat _)
        (Job.AsksSince.resume ⟨⟨hkept, hfills⟩, hnext⟩ _)⟩
      rintro _ ⟨⟩
      exact .fills hgiven hkept hchosen (.inr hfills)

theorem stands_plan (settings : Settings) (request : Request) :
    Stands settings request []
      (.planning (plan settings request).run : Plan.Stage σ Manifest.File Manifest) :=
  .planning ⟨default, 0, .inl rfl⟩ (by simp [Unremoved]) (asksSince_plan settings request)

theorem Stands.searched {stage : Plan.Stage σ Manifest.File Manifest}
    (h : Stands settings request talk stage) : Searched settings talk := by
  cases h with
  | planning hsearched => exact hsearched
  | running hgiven => exact hgiven.searched
  | concluding hgiven => exact hgiven.searched

theorem Stands.made {stage : Plan.Stage σ Manifest.File Manifest} {m : Manifest}
    (h : Stands settings request talk stage) (hm : stage.result? = some (.ok m)) :
    Given settings talk m.id ∧ Unremoved talk := by
  cases h with
  | @planning rest _ _ hrest => rcases rest with (_ | _) | _ | _ <;> cases hm
  | running => cases hm
  | @concluding draft rest hgiven _ hrest =>
    rcases rest with result | _ | _
    · obtain rfl := Option.some.inj hm
      obtain ⟨hid, hkept⟩ : Concluded settings draft talk (.ok m) := hrest
      exact ⟨hid ▸ hgiven, hkept⟩
    · cases hm
    · cases hm

theorem Stands.failed {stage : Plan.Stage σ Manifest.File Manifest} {fault : Fault}
    (h : Stands settings request talk stage) (hfault : stage.result? = some (.error fault))
    (id : String) (hgiven : Given settings talk id) : ¬ Unremoved talk := by
  intro hkept
  cases h with
  | @planning rest _ _ hrest =>
    rcases rest with (_ | _) | _ | _
    · exact hrest id hgiven
    · cases hfault
    · cases hfault
    · cases hfault
  | running => cases hfault
  | @concluding draft rest _ _ hrest =>
    rcases rest with result | _ | _
    · obtain rfl := Option.some.inj hfault
      obtain ⟨answer, hremoved⟩ : Concluded settings draft talk (.error fault) := hrest
      exact hkept _ hremoved _ rfl
    · cases hfault
    · cases hfault

end Backup

end SqlBackup
