import Mathlib
import SqlBackup.Proofs.Load.Offsets
import SqlBackup.Proofs.Scan.Moves

/-!
# What a load reports

A load tells how many bytes it has read and how many statements it has executed, every so many
statements and once more at its end. Neither number ever decreases. A dump that is not compressed has
been read to its end when it is told of for the last time.
-/
namespace SqlBackup.Load

open Scan

/-- What a load tells at these marks, each of them the bytes read and the statements executed. -/
def reports (database : String) (total : Option Nat) (marks : List (Nat × Nat)) :
    List Progress.Event :=
  marks.map fun mark => .loading database mark.1 total mark.2

/-- The reports of a load, none of them of less than one before it. The length of the whole is known
unless it is compressed. -/
def Measured (database : String) (isCompressed : Bool) (events : List Progress.Event) : Prop :=
  ∃ total marks, events = reports database total marks ∧ marks.Pairwise (· ≤ ·) ∧
    total.isSome = !isCompressed

/-- A load that has told this is no less far than any of its reports. -/
def UpTo (database : String) (total : Option Nat) (mark : Nat × Nat) (talk : List Asked) : Prop :=
  ∃ marks, toldIn talk = reports database total marks ∧ (marks ++ [mark]).Pairwise (· ≤ ·)

/-- The last report of a load is of this. -/
def Reported (database : String) (total : Option Nat) (mark : Nat × Nat) (talk : List Asked) :
    Prop :=
  ∃ marks, toldIn talk = reports database total (marks ++ [mark]) ∧ (marks ++ [mark]).Pairwise (· ≤ ·)

/-- A dump that is not compressed was opened, and this is its text. -/
def Found (options : Options) (opened : Option Nat × Source) (talk : List Asked) : Prop :=
  ∃ (content : Files.Content) (n : Nat), ⟨.file (.read options.path), .ok (.ok content)⟩ ∈ talk ∧
    ⟨.file (.size options.path), .ok (.ok n)⟩ ∈ talk ∧ opened.1 = some n ∧
    opened.2 = ⟨content.bytes.drop options.resumeOffset, content.failure.map .plain⟩

/-- A dump that is not compressed was read to its end. -/
def ReadOut (options : Options) (total : Option Nat) (bytesRead : Nat) (talk : List Asked) : Prop :=
  ∃ bytes n, ⟨.file (.read options.path), .ok (.ok ⟨bytes, none⟩)⟩ ∈ talk ∧
    ⟨.file (.size options.path), .ok (.ok n)⟩ ∈ talk ∧ total = some n ∧
      bytesRead = options.resumeOffset + (bytes.drop options.resumeOffset).length

/-- What has been told and found when a load comes to its end. -/
structure Complete (options : Options) (compression : Compression) (stats : Stats)
    (talk : List Asked) : Prop where
  reported : Reported options.database stats.totalBytes (stats.bytesRead, stats.executed) talk
  isSome : stats.totalBytes.isSome = !compression.isCompressed
  readOut : compression = .none → ReadOut options stats.totalBytes stats.bytesRead talk

variable {β : Type} {database : String} {total : Option Nat} {mark mark' : Nat × Nat}
  {isCompressed : Bool} {talk later : List Asked} {asked : Asked} {session : Session}
  {options : Options} {opened : Option Nat × Source} {c : Course} {sc : Scanner} {p : Progress}

theorem UpTo.mono (h : UpTo database total mark talk) (hle : mark ≤ mark') :
    UpTo database total mark' talk := by
  obtain ⟨marks, htold, hpairwise⟩ := h
  obtain ⟨hmarks, -, hbehind⟩ := List.pairwise_append.mp hpairwise
  refine ⟨marks, htold, List.pairwise_append.mpr ⟨hmarks, List.pairwise_singleton _ _, ?_⟩⟩
  intro earlier hearlier later hlater
  rw [List.mem_singleton.mp hlater]
  exact (hbehind earlier hearlier mark List.mem_cons_self).trans hle

theorem UpTo.of_told_eq (h : UpTo database total mark talk) (hsame : toldIn later = toldIn talk) :
    UpTo database total mark later := by
  rwa [UpTo, hsame]

theorem Reported.upTo (h : Reported database total mark talk) : UpTo database total mark talk := by
  obtain ⟨marks, htold, hpairwise⟩ := h
  refine ⟨marks ++ [mark], htold,
    List.pairwise_append.mpr ⟨hpairwise, List.pairwise_singleton _ _, ?_⟩⟩
  intro earlier hearlier later hlater
  rw [List.mem_singleton.mp hlater]
  rcases List.mem_append.mp hearlier with hfront | hlast
  · exact (List.pairwise_append.mp hpairwise).2.2 earlier hfront mark List.mem_cons_self
  · exact (List.mem_singleton.mp hlast).le

theorem Reported.of_told_eq (h : Reported database total mark talk) (hsame : toldIn later = toldIn talk) :
    Reported database total mark later := by
  rwa [Reported, hsame]

theorem Found.concat (h : Found options opened talk) : Found options opened (talk ++ [asked]) := by
  obtain ⟨content, n, hread, hsize, hopened⟩ := h
  exact ⟨content, n, List.mem_append_left _ hread, List.mem_append_left _ hsize, hopened⟩

theorem Complete.concat {compression : Compression} {stats : Stats}
    (h : Complete options compression stats talk) (hquiet : asked.request.IsQuiet) :
    Complete options compression stats (talk ++ [asked]) := by
  refine ⟨h.reported.of_told_eq (toldIn_of_isQuiet hquiet), h.isSome, fun hplain => ?_⟩
  obtain ⟨bytes, n, hread, hsize, hopened⟩ := h.readOut hplain
  exact ⟨bytes, n, List.mem_append_left _ hread, List.mem_append_left _ hsize, hopened⟩

/-! ### Loading statements -/

theorem isQuiet_of_transacts {request : Request} (h : request.transacts = true) :
    request.IsQuiet := by
  rintro event rfl
  cases h

section Course

variable {ends : List Asked → Except Fault β → Prop}

/-- A load that tells how far it is tells of no less than before. -/
theorem Course.asksSince_report {executed position : Nat} {f : Unit → Work β}
    (hsize : c.totalBytes.isSome = !isCompressed)
    (h : UpTo c.batches.database c.totalBytes (position, executed) talk)
    (hf : ∀ talk, Reported c.batches.database c.totalBytes (position, executed) talk →
      (f ()).run.AsksSince (Tells (Measured c.batches.database isCompressed)) ends talk) :
    (c.report position executed >>= f).run.AsksSince
      (Tells (Measured c.batches.database isCompressed)) ends talk := by
  obtain ⟨marks, htold, hpairwise⟩ := h
  have hnext : toldIn talk ++ [.loading c.batches.database position c.totalBytes executed] =
      reports c.batches.database c.totalBytes (marks ++ [(position, executed)]) := by
    rw [htold, reports, reports, List.map_append]
    rfl
  refine Work.asksSince_request ?_ fun reply => hf _ ⟨marks, ?_, hpairwise⟩
  · rintro _ ⟨⟩
    exact ⟨_, _, hnext, hpairwise, hsize⟩
  · rw [toldIn_concat]
    exact hnext

variable (hsize : c.totalBytes.isSome = !isCompressed)
include hsize

theorem Course.asksSince_take {before position : Nat} {statement : Statement}
    (hle : before ≤ position)
    (h : UpTo c.batches.database c.totalBytes (before, p.batches.executed) talk) :
    (c.take position p statement).run.AsksSince (Tells (Measured c.batches.database isCompressed))
      (fun talk result => ∀ p', result = .ok p' →
        UpTo c.batches.database c.totalBytes (position, p'.batches.executed) talk) talk := by
  rw [take]
  dsimp only
  split
  · rintro _ ⟨⟩
    exact h.mono ⟨hle, le_rfl⟩
  · have hpush := asks_push (fun _ => isQuiet_of_transacts) c.batches p.batches statement
    refine Work.asksSince_ofJob (hpush.untold rfl) ?_
    rintro talk ⟨answer, batches⟩ ⟨htold, hexecuted⟩
    have hfar : UpTo c.batches.database c.totalBytes (position, batches.executed) talk :=
      (h.of_told_eq htold).mono ⟨hle, hexecuted⟩
    dsimp only
    cases answer with
    | error fault => exact fun _ hno => by cases hno
    | ok _ =>
      rw [Work.ofResult_bind]
      split
      · refine asksSince_report hsize hfar fun talk hreported => ?_
        rintro _ ⟨⟩
        exact hreported.upTo
      · rintro _ ⟨⟩
        exact hfar

/-- Statement after statement a load gets on. -/
theorem Course.asksSince_loadAll
    (h : UpTo c.batches.database c.totalBytes (sc.position, p.batches.executed) talk) :
    (c.loadAll sc p).run.AsksSince (Tells (Measured c.batches.database isCompressed))
      (fun talk result => ∀ r, result = .ok r →
        UpTo c.batches.database c.totalBytes (r.1.position, r.2.batches.executed) talk) talk := by
  fun_induction loadAll c sc p generalizing talk with
  | case1 => exact fun _ hno => by cases hno
  | case2 sc p sc' called =>
    rintro _ ⟨⟩
    exact h.mono ⟨Scanner.position_le_next called, le_rfl⟩
  | case3 sc p sc' statement called ih =>
    refine Work.asksSince_bind_ok (asksSince_take hsize (Scanner.position_le_next called) h)
      fun talk p' hfar => ih p' (hfar p' rfl)

end Course

/-! ### The whole of a dump -/

theorem asksSince_loadSource (session : Session) (options : Options) (format : Dump.Format)
    (hsize : opened.1.isSome = !isCompressed)
    (htold : toldIn talk = []) :
    (loadSource session options format opened).run.AsksSince
      (Tells (Measured options.database isCompressed))
      (fun talk result => ∀ stats, result = .ok stats →
        Reported options.database opened.1 (stats.bytesRead, stats.executed) talk) talk := by
  let course := options.course session opened.1
  have hsize' : course.totalBytes.isSome = !isCompressed := hsize
  have hstart : UpTo course.batches.database course.totalBytes
      ((options.scanner opened.2).position, ({} : Progress).batches.executed) talk :=
    ⟨[], htold, List.pairwise_singleton _ _⟩
  rw [loadSource]
  refine Work.asksSince_bind_ok (Course.asksSince_loadAll hsize' hstart) fun talk r hfar => ?_
  have hflush := asks_flush (fun _ => isQuiet_of_transacts)
    (options.course session opened.1).batches r.2.batches
  refine Work.asksSince_ofJob (hflush.untold rfl) ?_
  rintro talk ⟨answer, batches⟩ ⟨htold, hexecuted⟩
  have hfar : UpTo options.database opened.1 (r.1.position, batches.executed) talk :=
    ((hfar r rfl).of_told_eq htold).mono ⟨le_rfl, hexecuted⟩
  dsimp only
  cases answer with
  | error fault => exact fun _ hno => by cases hno
  | ok _ =>
    rw [Work.ofResult_bind]
    refine Course.asksSince_report hsize hfar fun talk hreported => ?_
    rintro _ ⟨⟩
    exact hreported

theorem isQuiet_file (call : Files.Call) : Request.IsQuiet (.file call) := by simp [Request.IsQuiet]

/-- To open a dump nothing is told. What it holds is what was read of it. -/
theorem asksSince_openSource {form : List Progress.Event → Prop} (format : Dump.Format)
    (htold : toldIn talk = []) :
    (openSource options format).run.AsksSince (Tells form)
      (fun talk result => toldIn talk = [] ∧ ∀ opened, result = .ok opened →
        opened.1.isSome = (!format.compression.isCompressed) ∧
          (format.compression = .none → Found options opened talk)) talk := by
  by_cases hplain : format.compression = .none
  · rw [openSource, hplain]
    refine Work.asksSince_ofExcept (m := fun talk answer => toldIn talk = [] ∧
        ∀ content, answer = .ok content →
          ⟨.file (.read options.path), .ok (.ok content)⟩ ∈ talk) ?_
      (fun _ _ h => ⟨h.1, fun _ hno => by cases hno⟩) ?_
    · refine ⟨tells_of_isQuiet (isQuiet_file _), fun answer =>
        ⟨(toldIn_of_isQuiet (isQuiet_file _)).trans htold, ?_⟩⟩
      rintro content rfl
      exact List.mem_concat_self
    rintro talk content ⟨htold, hread⟩
    show (some <$> Work.onPath _ _ >>= _).run.AsksSince _ _ _
    rw [bind_map_left]
    refine Work.asksSince_ofExcept (m := fun talk answer => toldIn talk = [] ∧
        (⟨.file (.read options.path), .ok (.ok content)⟩ ∈ talk) ∧
        ∀ n, answer = .ok n → ⟨.file (.size options.path), .ok (.ok n)⟩ ∈ talk) ?_
      (fun _ _ h => ⟨h.1, fun _ hno => by cases hno⟩) ?_
    · refine ⟨tells_of_isQuiet (isQuiet_file _), fun answer =>
        ⟨(toldIn_of_isQuiet (isQuiet_file _)).trans htold,
          List.mem_append_left _ (hread content rfl), ?_⟩⟩
      rintro n rfl
      exact List.mem_concat_self
    rintro talk n ⟨htold, hread, hsize⟩
    refine ⟨htold, ?_⟩
    rintro _ ⟨⟩
    exact ⟨rfl, fun _ => ⟨content, n, hread, hsize n rfl, rfl, rfl⟩⟩
  · have hfile (call : Files.Call) (_ : call.Views options.path) : (Request.file call).IsQuiet := by
      simp [Request.IsQuiet]
    have hasks := asks_openSource options format hfile (by simp [Request.IsQuiet])
    refine (hasks.untold htold).mono ?_
    rintro talk result ⟨htold, hsome⟩
    exact ⟨htold, fun opened hopened => ⟨hsome opened hopened, fun hno => absurd hno hplain⟩⟩

/-- A scanner of what was found has come to its end only behind all of it. -/
theorem Found.readOut {front : List Result} {d : Delimiter} {stats : Stats}
    (h : Found options opened talk) (hreads : Reads (options.scanner opened.2) front d stats) :
    ReadOut options opened.1 stats.bytesRead talk := by
  obtain ⟨content, n, hread, hsize, htotal, hsource⟩ := h
  rw [hsource] at hreads
  have hnone : content.failure.map StreamFault.plain = none := hreads.failure_eq_none
  obtain ⟨bytes, failure⟩ := content
  obtain rfl : failure = none := Option.map_eq_none_iff.mp hnone
  refine ⟨bytes, n, hread, hsize, htotal, ?_⟩
  exact (options.rising_scannerOf bytes).ended _ (hreads.results_eq ▸ List.mem_concat_self) rfl

theorem asksSince_loadStatements (format : Dump.Format) (htold : toldIn talk = []) :
    (loadStatements session options format).run.AsksSince
      (Tells (Measured options.database format.compression.isCompressed))
      (fun talk result => ∀ stats, result = .ok stats →
        Complete options format.compression stats talk) talk := by
  rw [loadStatements_eq]
  refine Work.asksSince_bind_ok (asksSince_openSource format htold) fun talk opened h => ?_
  obtain ⟨htold, hopened⟩ := h
  obtain ⟨hsome, hfound⟩ := hopened opened rfl
  have hload := asksSince_loadSource session options format hsome htold
  have hkept := hload.keep (fun talk => format.compression = .none → Found options opened talk)
    (fun _ _ hfound _ hplain => (hfound hplain).concat) hfound
  refine (hkept.and (reads_loadSource session options format opened)).mono ?_
  rintro talk result ⟨⟨hfound, hreported⟩, hreads⟩ stats rfl
  obtain ⟨htotal, -, front, d, hreads⟩ := hreads stats rfl
  rw [← htotal] at hsome
  refine ⟨htotal ▸ hreported stats rfl, hsome, fun hplain => ?_⟩
  exact htotal ▸ (hfound hplain).readOut hreads

/-! ### Around the statements -/

theorem isQuiet_session (session : Session) (call : Session.Call) :
    Request.IsQuiet (.session session call) := by simp [Request.IsQuiet]

/-- The checks are switched and put back without a word. -/
theorem asksSince_withoutChecks {α : Type} {form : List Progress.Event → Prop} {body : Work α}
    {ends : List Asked → α → Prop}
    (hbody : ∀ talk, toldIn talk = [] → body.run.AsksSince (Tells form)
      (fun talk result => ∀ a, result = .ok a → ends talk a) talk)
    (hends : ∀ talk asked a, ends talk a → asked.request.IsQuiet → ends (talk ++ [asked]) a)
    (htold : toldIn talk = []) :
    (withoutChecks session body).run.AsksSince (Tells form)
      (fun talk result => ∀ a, result = .ok a → ends talk a) talk := by
  have hsession := fun call => isQuiet_session session call
  rw [withoutChecks]
  refine Work.asksSince_bind_ok ((asks_readChecks (fun _ => hsession _) _).untold htold)
    fun talk saved h => ?_
  have hinside : (do
      switchOff session (saved.map (·.1))
      body : Work α).run.AsksSince (Tells form)
        (fun talk result => ∀ a, result = .ok a → ends talk a) talk :=
    Work.asksSince_bind_ok ((asks_switchOff (fun _ _ => hsession _) _).untold h.1)
      fun talk _ h => hbody talk h.1
  refine Work.asksSince_ofJob hinside fun talk outcome houtcome => ?_
  refine Work.asksSince_ofJob ((asks_putBack (fun _ _ => hsession _) saved).quietly
    (fun talk => ∀ a, outcome = .ok a → ends talk a)
    (fun _ _ h hquiet a ha => hends _ _ a (h a ha) hquiet) houtcome) fun talk refusal h => ?_
  cases outcome with
  | error fault => exact fun _ hno => by cases hno
  | ok a =>
    cases refusal with
    | none =>
      rintro _ ⟨⟩
      exact h.1 a rfl
    | some cause => exact fun _ hno => by cases hno

/-- A dump whose compression is named is opened without a look at it. -/
theorem dump_of_named {compression : Compression} (hnamed : options.compression = some compression) :
    dump session options = (do
      openDatabase session options ⟨compression, .plain⟩
      withoutChecks session (loadStatements session options ⟨compression, .plain⟩)) := by
  rw [dump_eq, hnamed]
  rfl

/-- Whatever it is answered, a load tells how far it is and nothing else, and a load without a fault has
told so at its end. -/
theorem asksSince_dump (session : Session) {compression : Compression}
    (hnamed : options.compression = some compression) :
    (dump session options).run.AsksSince
      (Tells (Measured options.database compression.isCompressed))
      (fun talk result => Measured options.database compression.isCompressed (toldIn talk) ∧
        ∀ stats, result = .ok stats → Complete options compression stats talk) [] := by
  have hsession := fun call => isQuiet_session session call
  refine Job.AsksSince.formed ?_ ⟨if compression.isCompressed then none else some 0, [], rfl, .nil, ?_⟩
  · rw [dump_of_named hnamed]
    refine Work.asksSince_bind_ok ((asks_openDatabase session options ⟨compression, .plain⟩
      (hsession _) (hsession _)).untold rfl) fun talk _ h => ?_
    exact asksSince_withoutChecks
      (fun talk htold => asksSince_loadStatements ⟨compression, .plain⟩ htold)
      (fun _ _ _ h hquiet => h.concat hquiet) h.1
  · cases compression.isCompressed <;> rfl

end SqlBackup.Load
