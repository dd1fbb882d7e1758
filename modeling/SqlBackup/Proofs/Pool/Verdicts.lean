import Mathlib
import SqlBackup.Backup.Creation
import SqlBackup.Backup.Restoration
import SqlBackup.Proofs.Pool.Schedule
import SqlBackup.Proofs.Pool.Safety

/-!
# The failure that is reported

If what each job comes to does not depend on the others, then neither does what is reported of all
of them: it is the first failure in the order of the request, however wide the pool is and in
whatever order the jobs take turns. A job that fails earlier than another is also started earlier,
so the first failure is never among the jobs that were skipped.
-/
namespace SqlBackup.Pool

variable {σ ε α : Type} {host : Host σ} {s s' : σ}

/-- What each job comes to does not depend on the width of the pool or on the order of the turns. -/
def IsVerdict (host : Host σ) (jobs : List (Job (Except ε α))) (s : σ)
    (verdict : Nat → Outcome ε α) : Prop :=
  ∀ width moves t, History host (.start width jobs s) moves t →
    ∀ i outcome, .finish i outcome ∈ moves → outcome = verdict i

section

variable {jobs : List (Job (Except ε α))} {verdict : Nat → Outcome ε α} {width : Nat}
  {outcomes : List (Outcome ε α)}

/-- As long as no job before it fails, a job is started, and has its outcome. -/
theorem IsVerdict.outcome_eq (hverdict : IsVerdict host jobs s verdict)
    (h : Runs host width jobs s outcomes s') {i : Nat} (hi : i < jobs.length)
    (hsound : ∀ j < i, (verdict j).isFailure = false) : outcomes[i]? = some (verdict i) := by
  obtain ⟨t, ⟨moves, hmoves⟩, hover, rfl, -⟩ := h
  have hfinished := hmoves.finished hover
  have hverdicts : ∀ j < t.started, t.outcomes[j]? = some (verdict j) := by
    intro j hj
    have hlt : j < jobs.length := hj.trans_le
      (t.started_le.trans hmoves.sound.ordered.length_le)
    obtain ⟨rest, result, -, -, hresult, hfinish⟩ :=
      hfinished.came j jobs[j] hj (List.getElem?_eq_getElem hlt)
    rw [hresult, hverdict width moves t hmoves j _ hfinish]
  refine hverdicts i (Nat.lt_of_not_le fun hle => ?_)
  obtain ⟨j, hj, outcome, houtcome, hfailure⟩ := hfinished.blamed (by omega)
  obtain rfl : verdict j = outcome := Option.some.inj ((hverdicts j hj).symm.trans houtcome)
  rw [hsound j (by omega)] at hfailure
  cases hfailure

/-- A job that asks nothing leads nowhere else. -/
theorem leads_eq_of_result {job rest : Job α} {talk : List Asked}
    {result : Except String α} (h : job.Leads talk rest) (hend : job.result? = some result) :
    rest = job := by
  induction h with
  | nothing => rfl
  | ask h answer ih =>
    subst ih
    cases hend

/-- A job that leads to a single result, whatever it is answered, has that for its verdict. -/
theorem isVerdict_of_leads
    (h : ∀ (i : Nat) (job rest : Job (Except ε α)) (talk : List Asked)
      (result : Except String (Except ε α)), jobs[i]? = some job → job.Leads talk rest →
      rest.result? = some result → .ofResult result = verdict i) :
    IsVerdict host jobs s verdict := by
  intro width moves t hmoves i outcome hfinish
  have hsound := hmoves.sound
  obtain ⟨task, htask, hstarted, houtcome⟩ := (hsound.accounts.finished i outcome).mp hfinish
  have hi := (List.getElem?_eq_some_iff.mp htask).1.trans_le hsound.ordered.length_le
  have hjob := List.getElem?_eq_getElem hi
  obtain ⟨rest, hrest, hat⟩ := hsound.accounts.came i _ task hjob htask hstarted
  cases task with
  | running rest' => cases houtcome
  | skipped => cases hstarted
  | leaving armed other =>
    cases houtcome
    obtain ⟨result, hend, rfl⟩ := hat
    exact h i _ rest _ result hjob hrest hend
  | ended other =>
    cases houtcome
    obtain ⟨result, hend, rfl⟩ := hat
    exact h i _ rest _ result hjob hrest hend

end

/-! ### Gathering -/

section Gather

variable {blame : String → Fault → Fault} {names : List String} {outcomes : List (Outcome Fault α)}

/-- The fault of the first failure is gathered. -/
theorem gather_eq_error {i : Nat} {name : String} {outcome : Outcome Fault α} {fault : Fault}
    (hname : names[i]? = some name) (houtcome : outcomes[i]? = some outcome)
    (hfault : outcome.fault? blame name = some fault)
    (hfirst : ∀ j < i, ∀ other, outcomes[j]? = some other → other.isFailure = false) :
    gather blame names outcomes = .error fault := by
  have hpair : (names.zip outcomes)[i]? = some (name, outcome) :=
    List.getElem?_zip_eq_some.mpr ⟨hname, houtcome⟩
  obtain ⟨hlt, hget⟩ := List.getElem?_eq_some_iff.mp hpair
  have hsplit : names.zip outcomes =
      (names.zip outcomes).take i ++ (name, outcome) :: (names.zip outcomes).drop (i + 1) := by
    rw [← hget, List.getElem_cons_drop, List.take_append_drop]
  have hnone : ((names.zip outcomes).take i).findSome?
      (fun pair => pair.2.fault? blame pair.1) = none := by
    refine List.findSome?_eq_none_iff.mpr fun pair hmem => ?_
    obtain ⟨j, hj⟩ := List.mem_iff_getElem?.mp hmem
    rw [List.getElem?_take] at hj
    split at hj
    · next hless =>
      obtain ⟨-, hother⟩ := List.getElem?_zip_eq_some.mp hj
      exact Outcome.fault?_eq_none_iff.mpr (hfirst j hless _ hother)
    · cases hj
  have hfound : (names.zip outcomes).findSome? (fun pair => pair.2.fault? blame pair.1) =
      some fault := by
    rw [hsplit, List.findSome?_append, hnone, Option.none_or, List.findSome?_cons, hfault]
  rw [gather]
  split
  · next other hother => rw [Option.some.inj (hother.symm.trans hfound)]
  · next hother => cases hother.symm.trans hfound

theorem gather_eq_ok_of_sound
    (h : ∀ outcome ∈ outcomes, outcome.isFailure = false) :
    gather blame names outcomes = .ok (outcomes.filterMap Outcome.value?) := by
  have hnone : (names.zip outcomes).findSome? (fun pair => pair.2.fault? blame pair.1) = none :=
    List.findSome?_eq_none_iff.mpr fun pair hmem =>
      Outcome.fault?_eq_none_iff.mpr (h _ (List.of_mem_zip hmem).2)
  rw [gather]
  split
  · next other hother => cases hother.symm.trans hnone
  · rfl

/-- What is to be reported of jobs that come to these outcomes. -/
structure Reports (blame : String → Fault → Fault) (names : List String)
    (verdict : Nat → Outcome Fault α) (result : Except Fault (List α)) : Prop where
  /-- If a job fails and none before it does, its fault is reported. -/
  failure : ∀ (i : Nat) (name : String), names[i]? = some name → (verdict i).isFailure = true →
    (∀ j < i, (verdict j).isFailure = false) →
    ∃ fault, (verdict i).fault? blame name = some fault ∧ result = .error fault
  /-- Values are reported exactly if no job fails. -/
  ok_iff : (∃ values, result = .ok values) ↔ ∀ i < names.length, (verdict i).isFailure = false
  /-- The values are those of the jobs, in order. -/
  values : ∀ values, result = .ok values →
    (List.range names.length).map verdict = values.map .value

theorem exists_fault?_of_isFailure {outcome : Outcome Fault α} (h : outcome.isFailure = true)
    (name : String) : ∃ fault, outcome.fault? blame name = some fault := by
  cases outcome with
  | failed fault => exact ⟨fault, rfl⟩
  | panicked text => exact ⟨_, rfl⟩
  | value a => cases h
  | skipped => cases h

/-- If a job fails, one of them is the first. -/
theorem exists_first_failure {verdict : Nat → Outcome Fault α} {count : Nat}
    (h : ¬ ∀ i < count, (verdict i).isFailure = false) :
    ∃ i < count, (verdict i).isFailure = true ∧ ∀ j < i, (verdict j).isFailure = false := by
  push Not at h
  obtain ⟨i, hi, hfailure⟩ := h
  have hexists : ∃ i, (verdict i).isFailure = true := ⟨i, by simpa using hfailure⟩
  classical
  refine ⟨Nat.find hexists, ?_, Nat.find_spec hexists, fun j hj => ?_⟩
  · exact (Nat.find_min' hexists (by simpa using hfailure)).trans_lt hi
  · simpa using Nat.find_min hexists hj

/-- There is only one thing to report. -/
theorem Reports.unique {verdict : Nat → Outcome Fault α} {result result' : Except Fault (List α)}
    (h : Reports blame names verdict result) (h' : Reports blame names verdict result') :
    result = result' := by
  by_cases hsound : ∀ i < names.length, (verdict i).isFailure = false
  · obtain ⟨values, rfl⟩ := h.ok_iff.mpr hsound
    obtain ⟨values', rfl⟩ := h'.ok_iff.mpr hsound
    have hvalues := (h.values values rfl).symm.trans (h'.values values' rfl)
    have hinjective : Function.Injective (Outcome.value : α → Outcome Fault α) :=
      fun a b heq => by cases heq; rfl
    rw [List.map_injective_iff.mpr hinjective hvalues]
  · obtain ⟨i, hi, hfailure, hfirst⟩ := exists_first_failure hsound
    have hname := List.getElem?_eq_getElem hi
    obtain ⟨fault, hfault, rfl⟩ := h.failure i _ hname hfailure hfirst
    obtain ⟨fault', hfault', rfl⟩ := h'.failure i _ hname hfailure hfirst
    rw [Option.some.inj (hfault.symm.trans hfault')]

/-- What is gathered of any run is what is to be reported. -/
theorem Runs.reports {jobs : List (Job (Except Fault α))} {verdict : Nat → Outcome Fault α}
    {width : Nat} (hverdict : IsVerdict host jobs s verdict) (hnames : names.length = jobs.length)
    (h : Runs host width jobs s outcomes s') :
    Reports blame names verdict (gather blame names outcomes) := by
  obtain ⟨moves, started, hfinished⟩ := h.finished
  have hlength := hfinished.length_eq
  have herror : ∀ (i : Nat) (name : String), names[i]? = some name →
      (verdict i).isFailure = true → (∀ j < i, (verdict j).isFailure = false) →
      ∃ fault, (verdict i).fault? blame name = some fault ∧
        gather blame names outcomes = .error fault := by
    intro i name hname hfailure hfirst
    have hi : i < jobs.length := hnames ▸ (List.getElem?_eq_some_iff.mp hname).1
    obtain ⟨fault, hfault⟩ := exists_fault?_of_isFailure hfailure name
    refine ⟨fault, hfault, gather_eq_error hname (hverdict.outcome_eq h hi hfirst) hfault ?_⟩
    intro j hj other hother
    rw [hverdict.outcome_eq h (hj.trans hi) fun k hk => hfirst k (hk.trans hj)] at hother
    rw [← Option.some.inj hother]
    exact hfirst j hj
  have hall : (∀ i < names.length, (verdict i).isFailure = false) →
      outcomes = (List.range names.length).map verdict := by
    intro hsound
    refine List.ext_getElem? fun i => ?_
    rcases Nat.lt_or_ge i names.length with hi | hi
    · rw [hverdict.outcome_eq h (hnames ▸ hi) fun j hj => hsound j (hj.trans hi), List.getElem?_map,
        List.getElem?_range hi]
      rfl
    · rw [List.getElem?_eq_none (by omega), List.getElem?_eq_none (by simpa using hi)]
  have hiff : (∃ values, gather blame names outcomes = .ok values) ↔
      ∀ i < names.length, (verdict i).isFailure = false := by
    refine ⟨fun ⟨values, hvalues⟩ => ?_, fun hsound => ?_⟩
    · by_contra hunsound
      obtain ⟨i, hi, hfailure, hfirst⟩ := exists_first_failure hunsound
      obtain ⟨fault, -, hfault⟩ := herror i _ (List.getElem?_eq_getElem hi) hfailure hfirst
      rw [hvalues] at hfault
      cases hfault
    · refine ⟨_, gather_eq_ok_of_sound fun outcome hmem => ?_⟩
      rw [hall hsound, List.mem_map] at hmem
      obtain ⟨i, hi, rfl⟩ := hmem
      exact hsound i (List.mem_range.mp hi)
  refine ⟨herror, hiff, fun values hvalues => ?_⟩
  rw [← hall (hiff.mp ⟨values, hvalues⟩)]
  exact gather_eq_ok hvalues (hlength.trans hnames.symm) hfinished.exists_failure

/-- Whatever the width of the pool and the order of the turns are, the first failure is reported, as
it is when the jobs run one after the other. -/
theorem gather_of_runs (host : Host σ) (jobs : List (Job (Except Fault α))) (s : σ)
    (verdict : Nat → Outcome Fault α) (hverdict : IsVerdict host jobs s verdict)
    (blame : String → Fault → Fault) (names : List String) (hnames : names.length = jobs.length)
    (width : Nat) (outcomes : List (Outcome Fault α)) (s' : σ)
    (h : Runs host width jobs s outcomes s') :
    Reports blame names verdict (gather blame names outcomes) ∧
      gather blame names outcomes = gather blame names (run host 1 jobs s).pool.outcomes :=
  ⟨h.reports hverdict hnames,
    (h.reports hverdict hnames).unique ((runs_run host 1 jobs s).reports hverdict hnames)⟩

/-- The first job yields a value, the others fail. -/
def gloomyJobs : List (Job (Except Fault Nat)) :=
  [.done (.ok 1), .panic "boom", .done (.error (.invalidOptions "no"))]

def gloomyVerdict : Nat → Outcome Fault Nat
  | 0 => .value 1
  | 1 => .panicked "boom"
  | _ => .failed (.invalidOptions "no")

theorem gather_of_gloomy :
    IsVerdict Scripted.host gloomyJobs default gloomyVerdict ∧
    Runs Scripted.host 2 gloomyJobs default (run Scripted.host 2 gloomyJobs default).pool.outcomes
      default ∧
    Reports .backupOf ["a", "b", "c"] gloomyVerdict
      (gather .backupOf ["a", "b", "c"] (run Scripted.host 2 gloomyJobs default).pool.outcomes) ∧
    gather .backupOf ["a", "b", "c"] (run Scripted.host 2 gloomyJobs default).pool.outcomes =
      gather .backupOf ["a", "b", "c"] (run Scripted.host 1 gloomyJobs default).pool.outcomes := by
  have hverdict : IsVerdict Scripted.host gloomyJobs default gloomyVerdict := by
    refine isVerdict_of_leads fun i job rest talk result hjob hleads hend => ?_
    match i with
    | 0 =>
      cases hjob
      cases leads_eq_of_result hleads rfl
      cases hend
      rfl
    | 1 =>
      cases hjob
      cases leads_eq_of_result hleads rfl
      cases hend
      rfl
    | 2 =>
      cases hjob
      cases leads_eq_of_result hleads rfl
      cases hend
      rfl
    | i + 3 => cases hjob
  have hruns : Runs Scripted.host 2 gloomyJobs default
      (run Scripted.host 2 gloomyJobs default).pool.outcomes default :=
    runs_run Scripted.host 2 gloomyJobs default
  exact ⟨hverdict, hruns, gather_of_runs Scripted.host gloomyJobs default gloomyVerdict hverdict
    .backupOf ["a", "b", "c"] rfl 2 _ default hruns⟩

end Gather

end SqlBackup.Pool

namespace SqlBackup.Backup

variable {σ : Type} {host : Host σ} {s s' : σ} {width : Nat}

/-- What is done about the exports of a backup does not depend on the order of their turns. -/
theorem conclude_of_runs {settings : Settings} {request : Request} {draft : Draft}
    {outcomes : List (Pool.Outcome Fault Manifest.File)}
    {verdict : Nat → Pool.Outcome Fault Manifest.File}
    (hverdict : Pool.IsVerdict host ((exportJobs settings request draft).map ExceptT.run) s verdict)
    (h : Pool.Runs host width ((exportJobs settings request draft).map ExceptT.run) s outcomes s') :
    conclude settings request draft outcomes = conclude settings request draft
      (Pool.run host 1 ((exportJobs settings request draft).map ExceptT.run) s).pool.outcomes := by
  have hnames : draft.databases.length =
      ((exportJobs settings request draft).map ExceptT.run).length := by
    simp [exportJobs]
  have hsame : Pool.gather .backupOf draft.databases outcomes =
      Pool.gather .backupOf draft.databases (Pool.run host 1
        ((exportJobs settings request draft).map ExceptT.run) s).pool.outcomes :=
    (h.reports hverdict hnames).unique ((Pool.runs_run host 1 _ s).reports hverdict hnames)
  rw [conclude, conclude, hsame]

/-- What is reported of the loads of a restore does not depend on the order of their turns. -/
theorem restored_of_runs {settings : Settings} {request : RestoreRequest} {selection : Selection}
    {outcomes : List (Pool.Outcome Fault Restored)} {verdict : Nat → Pool.Outcome Fault Restored}
    (hverdict : Pool.IsVerdict host ((restoreJobs settings request selection).map ExceptT.run) s
      verdict)
    (h : Pool.Runs host width ((restoreJobs settings request selection).map ExceptT.run) s outcomes
      s') :
    Pool.gather .restoreOf (selection.files.map fun file => targetOf request file.database)
        outcomes =
      Pool.gather .restoreOf (selection.files.map fun file => targetOf request file.database)
        (Pool.run host 1 ((restoreJobs settings request selection).map
          ExceptT.run) s).pool.outcomes := by
  have hnames : (selection.files.map fun file => targetOf request file.database).length =
      ((restoreJobs settings request selection).map ExceptT.run).length := by
    simp [restoreJobs]
  exact (h.reports hverdict hnames).unique ((Pool.runs_run host 1 _ s).reports hverdict hnames)

end SqlBackup.Backup
