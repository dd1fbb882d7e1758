import Mathlib
import SqlBackup.Proofs.Backup.Targets
import SqlBackup.Proofs.Load.Reports
import SqlBackup.Proofs.Pool.Relay

/-!
# How far a restore is

Of each database that is restored it is heard that its restore has begun, then how far it is, and at
last that it is finished, if it is. The statements executed never become fewer, and neither do the
hundredths, which are known unless the dump is compressed. A dump that is not compressed ends with all
hundredths. This is so in whatever order the jobs and their forwarders have their turns.
-/
namespace SqlBackup

open Progress (percentage percentage_le)

/-! ### Hundredths -/

namespace Progress

theorem percentage_mono {a b p q : Nat} {total : Option Nat} (hle : a ≤ b)
    (ha : percentage a total = some p) (hb : percentage b total = some q) : p ≤ q := by
  match total, ha, hb with
  | some 0, ha, hb =>
    cases ha
    cases hb
    exact le_rfl
  | some (n + 1), ha, hb =>
    obtain rfl := Option.some.inj ha
    obtain rfl := Option.some.inj hb
    exact Nat.div_le_div_right (Nat.mul_le_mul_right 100 (min_le_min_right _ hle))

theorem isSome_percentage (done : Nat) (total : Option Nat) :
    (percentage done total).isSome = total.isSome := by
  match total with
  | none => rfl
  | some 0 => rfl
  | some (n + 1) => rfl

/-- All of a whole is done, even of an empty one. -/
theorem percentage_self (n : Nat) : percentage n (some n) = some 100 := by
  cases n with
  | zero => rfl
  | succ n =>
    rw [percentage, min_self, Nat.mul_div_cancel_left _ (Nat.succ_pos n)]

end Progress

namespace Backup

open Load (Measured reports)

/-- What is told of the restore of a database that has got so far. -/
def script (target : String) (index total : Nat) (percents : List (Option Nat × Nat))
    (finished : Bool) : List Progress.Event :=
  .started target index total :: (percents.map fun p => .percent target p.1 p.2) ++
    if finished then [.finished target] else []

/-- The hundredths of a restore, where they are known, and its statements never become fewer. -/
structure Rising (isCompressed : Bool) (percents : List (Option Nat × Nat)) : Prop where
  statements : (percents.map (·.2)).Pairwise (· ≤ ·)
  known : (percents.filterMap (·.1)).Pairwise (· ≤ ·)
  bounded : ∀ p ∈ percents.filterMap (·.1), p ≤ 100
  isSome : ∀ p ∈ percents, p.1.isSome = !isCompressed

/-- The hundredths at these marks. -/
def hundredths (total : Option Nat) (marks : List (Nat × Nat)) : List (Option Nat × Nat) :=
  marks.map fun mark => (percentage mark.1 total, mark.2)

variable {isCompressed : Bool} {percents : List (Option Nat × Nat)} {target : String}
  {index total : Nat}

theorem rising_nil : Rising isCompressed [] := ⟨.nil, .nil, by simp, by simp⟩

theorem Rising.of_prefix {front : List (Option Nat × Nat)} (h : Rising isCompressed percents)
    (hfront : front <+: percents) : Rising isCompressed front where
  statements := h.statements.sublist (hfront.sublist.map _)
  known := h.known.sublist (hfront.sublist.filterMap _)
  bounded p hp := h.bounded p ((hfront.sublist.filterMap _).subset hp)
  isSome p hp := h.isSome p (hfront.subset hp)

theorem rising_hundredths {length : Option Nat} {marks : List (Nat × Nat)}
    (h : marks.Pairwise (· ≤ ·)) (hsome : length.isSome = !isCompressed) :
    Rising isCompressed (hundredths length marks) where
  statements := by
    rw [hundredths, List.map_map, List.pairwise_map]
    exact h.imp fun hle => hle.2
  known := by
    rw [hundredths, List.filterMap_map, List.pairwise_filterMap]
    exact h.imp fun hle p hp q hq => Progress.percentage_mono hle.1 hp hq
  bounded p hp := by
    rw [hundredths, List.filterMap_map, List.mem_filterMap] at hp
    obtain ⟨mark, -, hmark⟩ := hp
    exact percentage_le hmark
  isSome p hp := by
    rw [hundredths, List.mem_map] at hp
    obtain ⟨mark, -, rfl⟩ := hp
    exact (Progress.isSome_percentage _ _).trans hsome

theorem map_inPercent_reports (length : Option Nat) (marks : List (Nat × Nat)) :
    (reports target length marks).map Progress.Event.inPercent =
      (hundredths length marks).map fun p => .percent target p.1 p.2 := by
  rw [reports, hundredths, List.map_map, List.map_map]
  rfl

/-- The form of what is told of the restore of a database. -/
def Told (target : String) (index total : Nat) (isCompressed : Bool)
    (events : List Progress.Event) : Prop :=
  events = [] ∨ ∃ percents finished, events = script target index total percents finished ∧
    Rising isCompressed percents

/-- What the reports of a load make of what has been told. -/
theorem told_of_measured {events : List Progress.Event} (index total : Nat)
    (h : Measured target isCompressed events) : ∃ percents,
    .started target index total :: events.map Progress.Event.inPercent =
      script target index total percents false ∧ Rising isCompressed percents := by
  obtain ⟨length, marks, rfl, hpairwise, hsome⟩ := h
  refine ⟨hundredths length marks, ?_, rising_hundredths hpairwise hsome⟩
  rw [map_inPercent_reports, script, if_neg Bool.false_ne_true, List.append_nil]

/-! ### A single restore -/

/-- A dump that is not compressed has been told of in full when its restore comes to this. -/
def Full (options : Load.Options) (compression : Compression)
    (percents : List (Option Nat × Nat)) (restored : Restored) (talk : List Asked) : Prop :=
  compression = .none → ∃ bytes n,
    ⟨.file (.read options.path), .ok (.ok ⟨bytes, none⟩)⟩ ∈ talk ∧
    ⟨.file (.size options.path), .ok (.ok n)⟩ ∈ talk ∧
    percents.getLast? = some (percentage bytes.length (some n), restored.stats.executed)

/-- What has been told at the end of a restore. -/
def Over (options : Load.Options) (index total : Nat) (compression : Compression)
    (talk : List Asked) (result : Except Fault Restored) : Prop :=
  ∃ percents, toldIn talk = script options.database index total percents result.isOk ∧
    Rising compression.isCompressed percents ∧
    ∀ restored, result = .ok restored → Full options compression percents restored talk

variable {options : Load.Options} {compression : Compression} {talk inner : List Asked}
  {stats : Load.Stats}

theorem over_of_begun {fault : Fault}
    (htold : toldIn talk = [.started options.database index total]) :
    Over options index total compression talk (.error fault) :=
  ⟨[], htold, rising_nil, fun _ hno => by cases hno⟩

/-- What has been told and found by a load that is told of in hundredths. -/
theorem told_of_complete (index total : Nat) (hfront : options.resumeOffset = 0)
    (h : Load.Complete options compression stats inner) : ∃ percents,
    .started options.database index total :: (toldIn inner).map Progress.Event.inPercent =
        script options.database index total percents false ∧
      Rising compression.isCompressed percents ∧
      ∀ source target, Full options compression percents { source, target, stats } inner := by
  obtain ⟨⟨marks, htold, hpairwise⟩, hsome, hreadOut⟩ := h
  refine ⟨hundredths stats.totalBytes (marks ++ [(stats.bytesRead, stats.executed)]), ?_,
    rising_hundredths hpairwise hsome, fun source target hplain => ?_⟩
  · rw [htold, map_inPercent_reports, script, if_neg Bool.false_ne_true, List.append_nil]
  · obtain ⟨bytes, n, hread, hsize, htotal, hbytes⟩ := hreadOut hplain
    refine ⟨bytes, n, hread, hsize, ?_⟩
    rw [hfront, List.drop_zero, Nat.zero_add] at hbytes
    rw [hundredths, List.map_append, List.map_singleton, List.getLast?_concat, htotal, hbytes]

theorem script_finished (percents : List (Option Nat × Nat)) :
    script target index total percents true =
      script target index total percents false ++ [.finished target] := by
  simp [script]

theorem mem_map_mapEvent {f : Progress.Event → Progress.Event} {asked : Asked}
    (h : asked ∈ talk) (hquiet : asked.request.IsQuiet) : asked ∈ talk.map (Asked.mapEvent f) :=
  List.mem_map.mpr ⟨asked, h, Asked.mapEvent_of_isQuiet hquiet⟩

/-- A load that is told of in hundredths behind the beginning of its restore. -/
theorem asksSince_inPercent (s : Session) (hnamed : options.compression = some compression)
    (htold : toldIn talk = [.started options.database index total]) :
    (inPercent (Load.dump s options)).run.AsksSince
      (Tells (Told options.database index total compression.isCompressed))
      (fun later result => ∃ inner,
        later = talk ++ inner.map (Asked.mapEvent Progress.Event.inPercent) ∧
        Measured options.database compression.isCompressed (toldIn inner) ∧
        ∀ stats, result = .ok stats → Load.Complete options compression stats inner) talk := by
  have hform (events : List Progress.Event)
      (h : Measured options.database compression.isCompressed events) :
      Told options.database index total compression.isCompressed
        (toldIn talk ++ events.map Progress.Event.inPercent) := by
    obtain ⟨percents, hscript, hrising⟩ := told_of_measured index total h
    rw [htold]
    exact .inr ⟨percents, false, hscript, hrising⟩
  have hload := (Load.asksSince_dump s hnamed).mapEvents talk hform
  rwa [List.map_nil, List.append_nil] at hload

/-- The load of a restore that has begun, and what follows it. -/
theorem asksSince_loading (s : Session) (source : String)
    (hnamed : options.compression = some compression) (hfront : options.resumeOffset = 0)
    (htold : toldIn talk = [.started options.database index total]) :
    (do
      let stats ← inPercent (Load.dump s options)
      Work.tell (.finished options.database)
      pure { source, target := options.database, stats } : Work Restored).run.AsksSince
        (Tells (Told options.database index total compression.isCompressed))
        (Over options index total compression) talk := by
  refine Work.asksSince_bind (asksSince_inPercent s hnamed htold) ?_ ?_
  · rintro _ fault ⟨inner, rfl, hmeasured, -⟩
    obtain ⟨percents, hscript, hrising⟩ := told_of_measured index total hmeasured
    refine ⟨percents, ?_, hrising, fun _ hno => by cases hno⟩
    rw [toldIn_append, htold, toldIn_map]
    exact hscript
  · rintro _ stats ⟨inner, rfl, -, hcomplete⟩
    obtain ⟨percents, hscript, hrising, hfull⟩ :=
      told_of_complete index total hfront (hcomplete stats rfl)
    have hend : toldIn (talk ++ inner.map (Asked.mapEvent Progress.Event.inPercent)) ++
        [.finished options.database] = script options.database index total percents true := by
      rw [toldIn_append, htold, toldIn_map, script_finished, ← hscript]
      rfl
    refine Work.asksSince_request ?_ fun reply => ⟨percents, ?_, hrising, ?_⟩
    · rintro _ ⟨⟩
      exact .inr ⟨percents, true, hend, hrising⟩
    · rw [toldIn_concat]
      exact hend
    · rintro _ ⟨⟩ hplain
      obtain ⟨bytes, n, hread, hsize, hlast⟩ := hfull source options.database hplain
      refine ⟨bytes, n, ?_, ?_, hlast⟩
      · exact List.mem_append_left _ (List.mem_append_right _
          (mem_map_mapEvent hread (Load.isQuiet_file _)))
      · exact List.mem_append_left _ (List.mem_append_right _
          (mem_map_mapEvent hsize (Load.isQuiet_file _)))

/-- Whatever it is answered, what the restore of a database tells has its form. -/
theorem asksSince_restoreOne (source : String) (dropFirst : Bool) (index total : Nat)
    (hnamed : options.compression = some compression) (hfront : options.resumeOffset = 0) :
    (restoreOne options source dropFirst index total).run.AsksSince
      (Tells (Told options.database index total compression.isCompressed))
      (Over options index total compression) [] := by
  rw [restoreOne]
  refine Work.asksSince_request ?_ fun _ => ?_
  · rintro _ ⟨⟩
    exact .inr ⟨[], false, rfl, rising_nil⟩
  have hacquire : (Job.request .acquire).Asks Request.IsQuiet fun _ => True :=
    Job.asks_request (by simp [Request.IsQuiet]) fun _ => trivial
  refine Work.asksSince_ofExcept (hacquire.untold rfl) (fun _ _ h => over_of_begun h.1)
    fun talk s h => ?_
  dsimp only
  split
  · have hdrop : (Job.request (.session s (.execute (Sql.dropDatabase options.database)))).Asks
        Request.IsQuiet fun _ => True :=
      Job.asks_request (Load.isQuiet_session s _) fun _ => trivial
    exact Work.asksSince_ofExcept (hdrop.untold h.1) (fun _ _ h => over_of_begun h.1)
      fun talk _ h => asksSince_loading s source hnamed hfront h.1
  · exact asksSince_loading s source hnamed hfront h.1

/-- The restore of a database was told to be finished. -/
def Finishes (target : String) (asked : Asked) : Prop := asked.event? = some (.finished target)

theorem not_finishes_of_isQuiet {request : SqlBackup.Request} (h : request.IsQuiet)
    (answer : Except String request.Reply) : ¬ Finishes target ⟨request, answer⟩ := by
  rw [Finishes, Request.IsQuiet.event?_eq_none h]
  simp

/-- A load that is told of in hundredths tells of nothing else. -/
theorem asks_inPercent (s : Session) (hrestorer : options.restorer = .installed) :
    (inPercent (Load.dump s options)).Asks
      (fun request => ∀ event, request = .tell event → event.isPercent = true) fun _ => True := by
  refine Job.Asks.mapEvents (Load.asks_dump s options hrestorer) fun request h => ?_
  rintro event htell
  cases request with
  | tell event' =>
    cases htell
    cases h with
    | tell hloading => exact Progress.Event.isPercent_inPercent hloading
    | transacts hno => cases hno
  | _ => cases htell

/-- The restore of a database comes to its value exactly by telling that it is finished. -/
theorem yieldsBy_restoreOne (hrestorer : options.restorer = .installed) (source : String)
    (dropFirst : Bool) (index total : Nat) :
    (restoreOne options source dropFirst index total).run.YieldsBy (Finishes options.database) := by
  have hload (s : Session) : (do
      let stats ← inPercent (Load.dump s options)
      Work.tell (.finished options.database)
      pure { source, target := options.database, stats } : Work Restored).run.YieldsBy
        (Finishes options.database) := by
    refine Work.yieldsBy_bind (asks_inPercent s hrestorer) ?_ fun stats => ?_
    · rintro request answer hallowed hfinishes
      cases request with
      | tell event =>
        have hpercent := hallowed event rfl
        cases answer with
        | error text => cases hfinishes
        | ok reply =>
          obtain rfl : event = .finished options.database := Option.some.inj hfinishes
          cases hpercent
      | _ => cases hfinishes
    · refine ⟨fun text hno => ?_, fun reply => ⟨fun _ => rfl, fun hno => absurd rfl hno⟩⟩
      cases hno
  rw [restoreOne]
  refine Job.yieldsBy_ask (fun answer hfinishes => ?_) fun _ => ?_
  · cases answer <;> cases hfinishes
  refine Work.yieldsBy_bind
    (Work.asks_ofExcept (Job.asks_request (by simp [SqlBackup.Request.IsQuiet])
      fun _ _ _ => trivial))
    (fun request answer (hquiet : request.IsQuiet) => not_finishes_of_isQuiet hquiet answer)
    fun s => ?_
  dsimp only
  split
  · exact Work.yieldsBy_bind (Work.asks_call (Load.isQuiet_session s _))
      (fun _ answer hquiet => not_finishes_of_isQuiet hquiet answer) fun _ => hload s
  · exact hload s

/-! ### What is heard -/

/-- Nothing waits to be passed on once it has been told that the restore is finished. -/
theorem queue_eq_nil {heard queue : List Progress.Event}
    (h : heard ++ queue = script target index total percents true)
    (hqueue : ∀ event ∈ queue, event.isPercent = true) : queue = [] := by
  by_contra hne
  have hlast := congrArg List.getLast? h
  rw [script_finished, List.getLast?_concat, List.getLast?_append_of_ne_nil _ hne] at hlast
  have hno := hqueue _ (List.mem_of_getLast? hlast)
  cases hno

/-- What is heard has its form although some hundredths may not have been passed on. -/
theorem told_of_queue {heard queue : List Progress.Event}
    (h : Told target index total isCompressed (heard ++ queue))
    (hqueue : ∀ event ∈ queue, event.isPercent = true) :
    Told target index total isCompressed heard := by
  rcases h with hnothing | ⟨percents, finished, hscript, hrising⟩
  · exact .inl (List.append_eq_nil_iff.mp hnothing).1
  cases finished with
  | true =>
    rw [queue_eq_nil hscript hqueue, List.append_nil] at hscript
    exact .inr ⟨percents, true, hscript, hrising⟩
  | false =>
    rw [script, if_neg Bool.false_ne_true, List.append_nil] at hscript
    cases heard with
    | nil => exact .inl rfl
    | cons event heard =>
      rw [List.cons_append, List.cons.injEq] at hscript
      obtain ⟨rfl, hrest⟩ := hscript
      obtain ⟨front, back, rfl, rfl, -⟩ := List.map_eq_append_iff.mp hrest.symm
      refine .inr ⟨front, false, ?_, hrising.of_prefix (List.prefix_append front back)⟩
      rw [script, if_neg Bool.false_ne_true, List.append_nil]

theorem finished_mem_append {heard queue : List Progress.Event}
    (hqueue : ∀ event ∈ queue, event.isPercent = true) :
    .finished target ∈ heard ++ queue ↔ .finished target ∈ heard := by
  rw [List.mem_append, or_iff_left]
  intro hno
  cases hqueue _ hno

/-- The restore of a database has come to this. -/
def Succeeded (task? : Option (Pool.Task Fault Restored)) (restored : Restored) : Prop :=
  ∃ task, task? = some task ∧ task.At (.done (.ok restored))

/-- What has been heard of the restore of a database when it is so far. -/
structure Followed (target : String) (index total : Nat) (compression : Compression)
    (task? : Option (Pool.Task Fault Restored)) (events : List Progress.Event) : Prop where
  /-- Nothing is heard of a restore that was not started. -/
  idle : (∀ task, task? = some task → task.isStarted = false) → events = []
  told : Told target index total compression.isCompressed events
  /-- Of one that is over it is heard at least that it has begun. -/
  begun : ∀ task outcome, task? = some task → task.isStarted = true →
    task.outcome? = some outcome → events ≠ []
  /-- It is heard to be finished exactly if it has succeeded. -/
  finished : .finished target ∈ events ↔ ∃ restored, Succeeded task? restored
  /-- All hundredths of a dump that is not compressed have been heard of then. -/
  full : compression = .none → ∀ restored, Succeeded task? restored → ∃ percents,
    events = script target index total percents true ∧
      percents.getLast? = some (some 100, restored.stats.executed)

variable {σ : Type} {host : Host σ} {files : σ → Scripted.Tree} {s s₁ : σ} {settings : Settings}
  {request : RestoreRequest} {selection : Selection}

/-- A request that leaves all files as they are. -/
def Spares (asked : SqlBackup.Request) : Prop :=
  ∀ call, asked = .file call → ∃ path, call.Views path

theorem Restores.spares {options : Load.Options} {asked : SqlBackup.Request}
    (h : Restores options asked) : Spares asked := by
  rintro call rfl
  cases h with
  | loads h =>
    cases h with
    | views h => exact ⟨options.path, h⟩
    | transacts hno => cases hno

theorem files_of_spares (hfiles : host.HasFiles files) {t : Scripted.Tree}
    (asked : SqlBackup.Request) (s : σ) (h : Spares asked) (hs : files s = t) :
    files (host.answer asked s).2 = t := by
  by_cases hfile : ∃ call, asked = .file call
  · obtain ⟨call, rfl⟩ := hfile
    obtain ⟨path, hviews⟩ := h call rfl
    exact ((hfiles.call call s).views hviews).trans hs
  · push Not at hfile
    exact (hfiles.silent asked s hfile).trans hs

/-- What is read of a file is as long as it is told to be. -/
theorem length_of_read (hfiles : host.HasFiles files) {path : String} {bytes : List UInt8} {n : Nat}
    {u v : σ} (hsame : files u = files v)
    (hread : .ok (.ok ⟨bytes, none⟩) = (host.answer (.file (.read path)) u).1.reply)
    (hsize : .ok (.ok n) = (host.answer (.file (.size path)) v).1.reply) : n = bytes.length := by
  have hbytes := hfiles.call (.read path) u
  rw [← hread] at hbytes
  have hlength := hfiles.call (.size path) v
  rw [← hsize] at hlength
  have hopen : (files u).open? path = .ok (.file bytes) :=
    Files.Entry.map_content_eq_ok.mp (congrArg Prod.fst (hbytes.eq_call nofun))
  have hcount : ((files v).open? path).map Scripted.Tree.size = .ok n :=
    congrArg Prod.fst (hlength.eq_call nofun)
  rw [← hsame, hopen] at hcount
  exact (Except.ok.inj hcount).symm

section Job

variable {g : Fault → Fault} {source : String} {dropFirst : Bool} {options : Load.Options}
  {compression : Compression} {index total : Nat} {talk : List Asked}
  {queue heard : List Progress.Event} {rest : Job (Except Fault Restored)}
  {task? : Option (Pool.Task Fault Restored)} {task : Pool.Task Fault Restored}

/-- Where a restore is that was started, what has been heard of it tells. -/
theorem followed_of_leads (hnamed : options.compression = some compression)
    (hfront : options.resumeOffset = 0) (hrestorer : options.restorer = .installed)
    (hleads : ((restoreOne options source dropFirst index total).mapFault g).run.Leads talk rest)
    (htask : task? = some task) (hat : task.At rest)
    (hheard : heard ++ queue = toldIn talk) (hqueue : ∀ event ∈ queue, event.isPercent = true)
    (hanswered : ∀ event answer, ⟨.tell event, answer⟩ ∈ talk → answer = .ok ())
    (hlength : ∀ bytes n, ⟨.file (.read options.path), .ok (.ok ⟨bytes, none⟩)⟩ ∈ talk →
      ⟨.file (.size options.path), .ok (.ok n)⟩ ∈ talk → n = bytes.length) :
    Followed options.database index total compression task? heard := by
  have hasks := Work.asksSince_mapFault (g := g)
    (asksSince_restoreOne source dropFirst index total hnamed hfront) fun talk fault hover =>
      ⟨hover.choose, hover.choose_spec.1, hover.choose_spec.2.1, fun _ hno => by cases hno⟩
  have hyields : ((restoreOne options source dropFirst index total).mapFault g).run.YieldsBy
      (Finishes options.database) :=
    (yieldsBy_restoreOne hrestorer source dropFirst index total).bind (fun _ => rfl)
      fun _ => trivial
  obtain ⟨htold, hrest⟩ := hasks.form_of_leads (.inl rfl) hleads
  subst htask
  have hdone {restored : Restored} (h : Succeeded (some task) restored) :
      rest = .done (.ok restored) := by
    obtain ⟨_, ⟨⟩, hsucceeded⟩ := h
    exact hat.eq_done hsucceeded
  have hmem : .finished options.database ∈ heard ↔
      ∃ asked ∈ talk, Finishes options.database asked := by
    rw [← finished_mem_append hqueue, hheard]
    exact List.mem_filterMap
  refine ⟨fun hidle => ?_, told_of_queue (hheard ▸ htold) hqueue, ?_, ?_, ?_⟩
  · exact absurd hat.isStarted (by simp [hidle task rfl])
  · rintro _ outcome ⟨⟩ - houtcome rfl
    have hover := hat.result?_isSome houtcome
    rcases Job.Leads.head_cases hleads with ⟨-, rfl⟩ | ⟨answer, later, rfl⟩
    · cases hover
    · obtain rfl := hanswered _ answer List.mem_cons_self
      have hbegun : .started options.database index total ∈ queue := by
        rw [List.nil_append] at hheard
        rw [hheard]
        exact List.mem_cons_self
      cases hqueue _ hbegun
  · rw [hmem]
    rcases hyields.leads hleads with ⟨hfinishes, hvalue⟩ | ⟨hnone, hopen⟩
    · refine iff_of_true hfinishes ?_
      obtain ⟨restored, hrestored⟩ := Option.isSome_iff_exists.mp hvalue
      obtain rfl := Job.value?_eq_some.mp hrestored
      exact ⟨restored, task, rfl, hat⟩
    · refine iff_of_false (fun ⟨asked, hasked, hfinishes⟩ => hnone asked hasked hfinishes) ?_
      rintro ⟨restored, hsucceeded⟩
      rw [hdone hsucceeded] at hopen
      exact hopen
  · intro hplain restored hsucceeded
    rw [hdone hsucceeded] at hrest
    obtain ⟨percents, hscript, -, hfull⟩ := hrest
    obtain ⟨bytes, n, hread, hsize, hlast⟩ := hfull restored rfl hplain
    rw [← hheard] at hscript
    have hempty := queue_eq_nil hscript hqueue
    rw [hempty, List.append_nil] at hscript
    refine ⟨percents, hscript, ?_⟩
    rw [hlast, hlength bytes n hread hsize, Progress.percentage_self]

end Job

/-- What is planned is the restore of the dumps chosen from the backup that was found. -/
theorem exists_selection {talk : List Asked} {p : Plan Restored (List Restored)}
    (h : (restorePlan settings request).run.Advances host s talk (.done (.ok p)) s₁) :
    ∃ selection : Selection,
      ((get settings request.id).run.run host s).1.result = .ok (.ok selection.manifest) ∧
      chooseFiles selection.manifest request.databases = .ok selection.files ∧
      p = planOf settings request selection := by
  obtain ⟨talk', hdialogue⟩ := Job.exists_dialogue h.run.1
  have hfound := hdialogue
  rw [restorePlan_eq] at hfound
  obtain ⟨_, m, _, _, -, hget, -⟩ := Work.dialogue_bind_ok hfound
  obtain ⟨files, hfiles, rfl⟩ := planned_of_dialogue hget.run.1 hdialogue
  exact ⟨⟨m, files⟩, hget.run.1, hfiles, rfl⟩

/-- In whatever order the restores of the databases and their forwarders take turns, it is heard of
each that it has begun, then how far it is, and that it is finished, if it is. -/
theorem followed_of_relay (hfiles : host.HasFiles files) (hhears : host.Hears)
    {talk : List Asked} {p : Plan Restored (List Restored)}
    {moves : List (Pool.Move Fault Restored)} {r : Pool.Relay σ Fault Restored}
    (hplan : (restorePlan settings request).run.Advances host s talk (.done (.ok p)) s₁)
    (h : Pool.Relay.History host (.start p.width (p.jobs.map ExceptT.run) s₁) moves r) :
    ∃ selection : Selection,
      ((get settings request.id).run.run host s).1.result = .ok (.ok selection.manifest) ∧
      chooseFiles selection.manifest request.databases = .ok selection.files ∧
      p.jobs = restoreJobs settings request selection ∧
      ∀ i file, selection.files[i]? = some file →
        Followed (targetOf request file.database) (i + 1) selection.files.length
          selection.manifest.compression r.turns.tasks[i]? (Pool.heardOf i r.heard) := by
  obtain ⟨selection, hget, hchosen, rfl⟩ := exists_selection hplan
  refine ⟨selection, hget, hchosen, rfl, fun i file hfile => ?_⟩
  have hsound := h.sound
  have hkeeps : r.Keeps host Spares (fun s => files s = files s₁) moves := h.keeps
    (fun job hjob => by
      obtain ⟨j, hj⟩ := List.mem_iff_getElem?.mp hjob
      obtain ⟨_, -, hasks⟩ := restores_of_restoreJobs hj
      exact hasks.widen fun _ => Restores.spares)
    (fun _ _ hno => by cases hno) (fun asked s => files_of_spares hfiles asked s) rfl
  have hjob : ((restoreJobs settings request selection).map ExceptT.run)[i]? =
      some ((restoreOne (loadOptions settings request selection.manifest file) file.database
        request.dropFirst (i + 1) selection.files.length).mapFault
          (.restoreOf (targetOf request file.database))).run := by
    rw [List.getElem?_map, restoreJobs, List.getElem?_mapIdx, hfile]
    rfl
  have hheard := hsound.heard i
  by_cases hstarted : ∃ task, r.turns.tasks[i]? = some task ∧ task.isStarted = true
  · obtain ⟨task, htask, hstarted⟩ := hstarted
    obtain ⟨rest, hleads, hat⟩ := hsound.turns.accounts.came i _ task hjob htask hstarted
    refine followed_of_leads rfl rfl rfl hleads htask hat hheard (hsound.queued i) ?_ ?_
    · intro event answer hasked
      obtain ⟨s, -, hanswer⟩ := hkeeps.answers i _ hasked
      cases event with
      | percent => exact hanswer
      | _ => exact hanswer.trans (hhears _ s)
    · intro bytes n hread hsize
      obtain ⟨u, hu, hbytes⟩ := hkeeps.answers i _ hread
      obtain ⟨v, hv, hcount⟩ := hkeeps.answers i _ hsize
      exact length_of_read hfiles (hu.trans hv.symm) hbytes hcount
  · have hidle : ∀ task, r.turns.tasks[i]? = some task → task.isStarted = false := fun task htask =>
      Bool.eq_false_iff.mpr fun hyes => hstarted ⟨task, htask, hyes⟩
    have hnone (restored : Restored) : ¬ Succeeded r.turns.tasks[i]? restored := by
      rintro ⟨task, htask, hat⟩
      exact hstarted ⟨task, htask, hat.isStarted⟩
    rw [hsound.turns.accounts.quiet i hidle, toldIn_nil, List.append_eq_nil_iff] at hheard
    rw [hheard.1]
    exact ⟨fun _ => rfl, .inl rfl, fun task _ htask hyes _ => absurd ⟨task, htask, hyes⟩ hstarted,
      iff_of_false List.not_mem_nil fun hfinished => hfinished.elim hnone,
      fun _ restored h => absurd h (hnone restored)⟩

/-! ### Two restores whose forwarders are never late -/

/-- What a restore comes to that succeeds is what its jobs come to, with forwarders that are never
late. -/
theorem exists_relay_of_carriesOut {s' : σ} {restored : List Restored} (hhears : host.Hears)
    (h : Plan.CarriesOut host (restorePlan settings request) s (.ok (.ok restored)) s') :
    ∃ (talk : List Asked) (p : Plan Restored (List Restored)) (s₁ : σ)
      (moves : List (Pool.Move Fault Restored)) (r : Pool.Relay σ Fault Restored),
      (restorePlan settings request).run.Advances host s talk (.done (.ok p)) s₁ ∧
      Pool.Relay.History host (.start p.width (p.jobs.map ExceptT.run) s₁) moves r ∧
      ∀ (i : Nat) (a : Restored), restored[i]? = some a → Succeeded r.turns.tasks[i]? a := by
  obtain ⟨p, outcomes, t, hdone, hruns, hresult⟩ := h.of_value
  obtain ⟨talk, htalk⟩ := Job.exists_advances hdone
  obtain ⟨selection, -, -, rfl⟩ := exists_selection htalk
  obtain ⟨_, _, hfinished⟩ := hruns.finished
  have hgather : Pool.gather .restoreOf
      (selection.files.map fun file => targetOf request file.database) outcomes = .ok restored :=
    Except.ok.inj hresult
  have hvalues := Pool.gather_eq_ok hgather (by simp [hfinished.length_eq, planOf, restoreJobs])
    hfinished.exists_failure
  obtain ⟨u, ⟨moves, hmoves⟩, -, houtcomes, -⟩ := hruns
  obtain ⟨heard, hrelay⟩ := Pool.Relay.exists_history hhears hmoves
  refine ⟨talk, _, _, moves, _, htalk, hrelay, fun i a ha => ?_⟩
  have hvalue : (u.tasks.map fun task => task.outcome?.getD .skipped)[i]? = some (.value a) := by
    rw [← Pool.Turns.outcomes, houtcomes, hvalues, List.getElem?_map, ha, Option.map_some]
  rw [List.getElem?_map, Option.map_eq_some_iff] at hvalue
  obtain ⟨task, htask, houtcome⟩ := hvalue
  refine ⟨task, htask, Pool.Task.at_done_of_outcome? ?_⟩
  cases hcame : task.outcome? with
  | none =>
    rw [hcame] at houtcome
    cases houtcome
  | some outcome =>
    rw [hcame] at houtcome
    exact congrArg some houtcome

/-- Of a database that gets the name of another all is heard under its new name. -/
theorem followed_of_swapped : ∃ talk p w moves r percents restored,
    (restorePlan oneByOne (renamed [("a", "b"), ("b", "a")])).run.Advances Scripted.host backedUp.2
      talk (.done (.ok p)) w ∧
    Pool.Relay.History Scripted.host (.start p.width (p.jobs.map ExceptT.run) w) moves r ∧
    Succeeded r.turns.tasks[0]? restored ∧
    Pool.heardOf 0 r.heard = script "a" 1 2 percents true ∧
    percents.getLast? = some (some 100, restored.stats.executed) := by
  obtain ⟨m, hmade, hrestore⟩ := restore_backedUp
  have hends : ends (Plan.carryOut Scripted.host (restoreFrom oneByOne
      (renamed [("a", "b"), ("b", "a")]) ((made? backedUp.1).getD default)) backedUp.2).1 =
        some true ∧ (made? backedUp.1).map (·.compression) = some .none := by decide +kernel
  obtain ⟨hget, hcarried⟩ := hrestore [("a", "b"), ("b", "a")]
  have hplain : m.compression = .none := by
    obtain ⟨m', hm', hnone⟩ := Option.map_eq_some_iff.mp hends.2
    obtain rfl : m' = m := by
      rw [hmade] at hm'
      exact (Option.some.inj hm').symm
    exact hnone
  rw [← hcarried] at hends
  have hsucceeds := hends.1
  generalize backedUp.2 = w₀ at hmade hget hsucceeds ⊢
  obtain ⟨restored, hrestored⟩ := exists_value hsucceeds
  have hcarries := Plan.carriesOut_carryOut Scripted.host (plan oneByOne bothDatabases)
    (waiting ⟨1709294400, 0⟩ ⟨[(["b"], .directory)]⟩)
  rw [← create, ← backedUp, hmade] at hcarries
  have hwhole := (databases_of_carriesOut (lists_of_named _ rfl) hcarries).2
  have hcarries' := Plan.carriesOut_carryOut Scripted.host
    (restorePlan oneByOne (renamed [("a", "b"), ("b", "a")])) w₀
  rw [← restore, hrestored] at hcarries'
  obtain ⟨talk, p, w, moves, r, hplan, hrelay, hvalues⟩ :=
    exists_relay_of_carriesOut (fun _ _ => rfl) hcarries'
  obtain ⟨selection, hfound, hfiles, -, hfollowed⟩ :=
    followed_of_relay Scripted.hasFiles_host (fun _ _ => rfl) hplan hrelay
  obtain rfl : selection.manifest = m :=
    (Except.ok.inj (Except.ok.inj (hget.symm.trans hfound))).symm
  have hnames : selection.files.map (·.database) = ["b", "a"] :=
    map_database_chooseFiles hwhole hfiles
  obtain ⟨file, other, hpair⟩ : ∃ file other, selection.files = [file, other] :=
    List.length_eq_two.mp (by simpa using congrArg List.length hnames)
  rw [hpair] at hnames hfollowed
  have hname : file.database = "b" := (List.cons.inj hnames).1
  obtain ⟨first, hfirst⟩ : ∃ first, restored[0]? = some first := by
    obtain ⟨_, _, hchosen, hentries⟩ := planned_of_carriesOut hwhole hget hcarries'
    have hlength : restored.length = 2 := by
      have hsame := congrArg List.length hentries
      have htwo := congrArg List.length hchosen
      rw [List.length_map, List.length_map] at hsame
      rw [List.length_map] at htwo
      exact hsame.trans htwo
    exact ⟨_, List.getElem?_eq_getElem (by omega)⟩
  have hfirst := hvalues 0 first hfirst
  obtain ⟨percents, hscript, hlast⟩ := (hfollowed 0 file rfl).full hplain first hfirst
  refine ⟨talk, p, w, moves, r, percents, first, hplan, hrelay, hfirst, ?_, hlast⟩
  rw [hscript, hname]
  rfl

end Backup

end SqlBackup
