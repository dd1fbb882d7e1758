import Mathlib
import SqlBackup.Proofs.Files.Looking
import SqlBackup.Proofs.Job.Moments
import SqlBackup.Proofs.Load.Whole
import SqlBackup.Proofs.Scan.Offsets

/-!
# What a load reads of a file

A load of a dump that is not compressed reads the bytes of its file from its offset on. Its
statistics are those of the scanner that has come to the end of them.
-/
namespace SqlBackup

open Scan

section Files

open Scripted (Tree)

variable {σ α : Type} {host : Host σ} {files : σ → Tree} {s s' : σ} {path : String}
  {talk : List Exchange}

/-- A job that only looks at a file leaves all files as they are. -/
theorem Job.Asks.files_eq {job : Job α} {wanted : α → Prop} {a : α}
    (h : job.Asks (Request.Views path) wanted) (hfiles : host.HasFiles files)
    (htalk : job.Dialogue host s talk a s') : files s' = files s := by
  let same : σ → Prop := fun t => files t = files s
  have hsame : ∀ request t, request.Views path → same t → same (host.answer request t).2 := by
    intro request t hviews ht
    cases request with
    | file call => exact ((hfiles.call call t).views (hviews call rfl)).trans ht
    | _ => exact (hfiles.silent _ t (by simp)).trans ht
  exact (h.dialogue hsame rfl htalk).1

/-- This was read of a file with these bytes: all of them, or a part and a failure behind it. -/
structure Files.Content.Of (bytes : List UInt8) (content : Files.Content) : Prop where
  bytes_prefix : content.bytes <+: bytes
  bytes_eq : content.failure = none → content.bytes = bytes

/-- What is read is what is there, or a part of it. -/
theorem Work.of_read (hfiles : host.HasFiles files) {bytes : List UInt8} {content : Files.Content}
    (hfile : (files s).open? path = .ok (.file bytes))
    (h : (onPath path (.file (.read path))).run.Dialogue host s talk (.ok content) s') :
    content.Of bytes ∧ files s' = files s := by
  have hread : (Job.request (.file (.read path))).Dialogue host s talk (.ok content) s' :=
    dialogue_ofExcept_ok h
  obtain ⟨hreply, -, rfl⟩ := Job.dialogue_request.mp hread
  have hanswer := hfiles.call (.read path) s
  have hsame := hanswer.views .read
  have hdone : ((files s).call (.read path)).1 = .ok ⟨bytes, none⟩ :=
    Files.Entry.map_content_eq_ok.mpr hfile
  refine ⟨?_, hsame⟩
  rw [hreply, hsame] at hanswer
  generalize hcontent : Except.ok (Except.ok content) = reply at hanswer
  cases hanswer with
  | done =>
    rw [hdone] at hcontent
    cases hcontent
    exact ⟨List.prefix_rfl, fun _ => rfl⟩
  | refused => cases hcontent
  | broken path' _ hopen hpart =>
    cases hcontent
    cases hfile.symm.trans hopen
    exact ⟨hpart, nofun⟩

theorem Work.size_of_size (hfiles : host.HasFiles files) {n : Nat}
    (h : (onPath path (.file (.size path))).run.Dialogue host s talk (.ok n) s') :
    ((files s).open? path).map Tree.size = .ok n := by
  have hsize : (Job.request (.file (.size path))).Dialogue host s talk (.ok n) s' :=
    dialogue_ofExcept_ok h
  obtain ⟨hreply, -, rfl⟩ := Job.dialogue_request.mp hsize
  have hanswer := hfiles.call (.size path) s
  rw [hreply] at hanswer
  exact (Prod.mk.inj (hanswer.eq_call nofun)).1

end Files

namespace Load

/-! ### From the scanner to the statistics -/

/-- These statistics tell of a scanner that has yielded these results before it came to its end. -/
structure Reads (sc : Scanner) (front : List Result) (d : Delimiter) (stats : Stats) : Prop where
  results_eq : sc.results = front ++ [⟨.ok none, d, stats.bytesRead⟩]
  statements : ∀ r ∈ front, ∃ statement, r.answer = .ok (some statement)
  delimiter : stats.delimiter = d.bytes
  endOffset : stats.endOffset = (endOffsets front).getLast?.getD 0

/-- A load is behind the statement that it took last. -/
theorem Course.endOffset_take (c : Course) (position : Nat) (p : Progress) (statement : Statement) :
    (c.take position p statement).Asks (fun _ => True) fun p' =>
      p'.endOffset = statement.endOffset := by
  rw [take]
  dsimp only
  split
  · exact Work.asks_pure rfl
  · refine (Work.asks_ofJob (asks_push (fun _ _ => trivial) _ _ _)).bind fun answer _ => ?_
    refine (Work.asks_ofResult _).bind fun _ _ => ?_
    split
    · exact (c.asks_report (fun _ _ => trivial) _ _).bind fun _ _ => Work.asks_pure rfl
    · exact Work.asks_pure rfl

/-- A load that comes to the end of its scanner is behind the last statement. -/
theorem Course.reads_loadAll (c : Course) (sc : Scanner) (p : Progress) :
    (c.loadAll sc p).Asks (fun _ => True) fun r =>
      ∃ front, sc.results = front ++ [r.1.state.shown (.ok none)] ∧
        (∀ q ∈ front, ∃ statement, q.answer = .ok (some statement)) ∧
        r.2.endOffset = (endOffsets front).getLast?.getD p.endOffset := by
  fun_induction loadAll c sc p with
  | case1 => exact Work.asks_fail
  | case2 sc p sc' called =>
    exact Work.asks_pure ⟨[], Scanner.results_of_last called (by simp), by simp, rfl⟩
  | case3 sc p sc' statement called ih =>
    refine (c.endOffset_take _ p statement).bind fun p₁ hp₁ => (ih p₁).mono fun result hresult => ?_
    rintro r rfl
    obtain ⟨front, hfront, hstatements, hend⟩ := hresult r rfl
    refine ⟨sc'.state.shown (.ok (some statement)) :: front, ?_, ?_, ?_⟩
    · rw [Scanner.results_of_statement called, hfront, List.cons_append]
    · exact List.forall_mem_cons.mpr ⟨⟨statement, rfl⟩, hstatements⟩
    · rw [hend, hp₁]
      show _ = (statement.endOffset :: endOffsets front).getLast?.getD p.endOffset
      rw [List.getLast?_cons, Option.getD_some]

theorem reads_loadSource (session : Session) (options : Options) (format : Dump.Format)
    (opened : Option Nat × Source) :
    (loadSource session options format opened).Asks (fun _ => True) fun stats =>
      stats.totalBytes = opened.1 ∧ stats.format = format ∧
        ∃ front d, Reads (options.scanner opened.2) front d stats := by
  rw [loadSource]
  refine (Course.reads_loadAll _ _ _).bind fun r hr => ?_
  obtain ⟨front, hresults, hstatements, hend⟩ := hr
  refine (Work.asks_ofJob (asks_flush (fun _ _ => trivial) _ _)).bind fun answer _ => ?_
  refine (Work.asks_ofResult _).bind fun _ _ => ?_
  refine (Course.asks_report (fun _ _ => trivial) _ _ _).bind fun _ _ => Work.asks_pure ?_
  exact ⟨rfl, rfl, front, r.1.delimiter, hresults, hstatements, rfl, hend⟩

/-- The text of a load that comes to its end does not break off. -/
theorem Reads.failure_eq_none {options : Options} {source : Source} {front : List Result}
    {d : Delimiter} {stats : Stats} (h : Reads (options.scanner source) front d stats) :
    source.failure = none :=
  Scanner.failure_eq_none rfl (Scanner.fault?_of_results h.results_eq h.statements)

theorem Loaded.failure_eq_none {c : Course} {options : Options} {source : Source}
    {talk : List Exchange} {stats : Stats} {blocks : List Block}
    (h : Loaded c (options.scanner source) talk (.ok stats) blocks) : source.failure = none := by
  cases h.ending with
  | complete _ hfault => exact Scanner.failure_eq_none rfl hfault

/-! ### From the file to the scanner -/

/-- The scanner of a file with these bytes that is not compressed. -/
def Options.scannerOf (options : Options) (bytes : List UInt8) : Scanner :=
  options.scanner ⟨bytes.drop options.resumeOffset, none⟩

/-- The statements of a file that breaks off are the first ones of the whole file. -/
theorem statements_of_part (options : Options) {content : Files.Content} {bytes : List UInt8}
    (hcontent : content.Of bytes) :
    (options.scanner ⟨content.bytes.drop options.resumeOffset,
      content.failure.map .plain⟩).statements <+: (options.scannerOf bytes).statements := by
  cases hfailure : content.failure with
  | none =>
    rw [hcontent.bytes_eq hfailure]
    exact List.prefix_rfl
  | some cause =>
    obtain ⟨rest, hrest⟩ := hcontent.bytes_prefix
    obtain ⟨front, last, fault, hbreaks⟩ := @Scanner.exists_breaksOff
      (options.scanner ⟨content.bytes.drop options.resumeOffset, some (.plain cause)⟩)
      (.plain cause) rfl rfl
    have hwhole := hbreaks.certain
      (rest.drop (options.resumeOffset - content.bytes.length)) none
    rw [Option.map_some, hbreaks.statements_eq, Options.scannerOf, ← hrest, List.drop_append]
    exact hwhole.filterMap _

section Plain

variable {σ : Type} {host : Host σ} {files : σ → Scripted.Tree} {session : Session}
  {options : Options} {s s' : σ} {talk : List Exchange} {bytes : List UInt8}
  (hfiles : host.HasFiles files) (hfile : (files s).open? options.path = .ok (.file bytes))
include hfiles hfile

theorem opened_of_openSource {format : Dump.Format} (hformat : format.compression = .none)
    {opened : Option Nat × Source}
    (h : (openSource options format).run.Dialogue host s talk (.ok opened) s') :
    ∃ content : Files.Content, content.Of bytes ∧ opened = (some bytes.length,
      ⟨content.bytes.drop options.resumeOffset, content.failure.map .plain⟩) := by
  rw [openSource, hformat] at h
  obtain ⟨_, content, t, _, -, hread, h⟩ := Work.dialogue_bind_ok h
  obtain ⟨hcontent, hsame⟩ := Work.of_read hfiles hfile hread
  obtain ⟨_, totalBytes, u, _, -, htotal, h⟩ := Work.dialogue_bind_ok h
  obtain ⟨_, n, v, _, -, hsize, -, htotal, -⟩ := Work.dialogue_bind_ok htotal
  cases htotal
  have hlength := Work.size_of_size hfiles hsize
  rw [hsame, hfile] at hlength
  cases hlength
  obtain ⟨_, codec, w, _, -, ⟨-, hcodec, -⟩, h⟩ := Work.dialogue_bind_ok h
  cases hcodec
  obtain ⟨_, source, x, _, -, ⟨-, hsource, -⟩, -, hopened, -⟩ := Work.dialogue_bind_ok h
  cases hsource
  cases hopened
  exact ⟨content, hcontent, rfl⟩

theorem opened_of_opening {opened : Dump.Format × (Option Nat × Source)}
    (h : (opening session options).run.Dialogue host s talk (.ok opened) s')
    (hformat : opened.1.compression = .none) :
    ∃ content : Files.Content, content.Of bytes ∧ opened.2 = (some bytes.length,
      ⟨content.bytes.drop options.resumeOffset, content.failure.map .plain⟩) := by
  have hviews {session : Session} {call : Session.Call} :
      Request.Views options.path (.session session call) := Request.views_of_ne (by simp)
  rw [opening] at h
  obtain ⟨_, format, t, _, -, hdetect, h⟩ := Work.dialogue_bind_ok h
  obtain ⟨_, _, u, _, -, hdatabase, h⟩ := Work.dialogue_bind_ok h
  obtain ⟨_, saved, v, _, -, hchecks, h⟩ := Work.dialogue_bind_ok h
  obtain ⟨_, _, w, _, -, hswitch, h⟩ := Work.dialogue_bind_ok h
  obtain ⟨_, source, x, _, -, hsource, -, hopened, -⟩ := Work.dialogue_bind_ok h
  cases hopened
  have hdetect := (Dump.asks_detect (Request.views_file .read) _).files_eq hfiles hdetect
  have hdatabase := (asks_openDatabase session options format hviews hviews).files_eq hfiles
    hdatabase
  have hchecks := (asks_readChecks (fun _ => hviews) _).files_eq hfiles hchecks
  have hswitch := (asks_switchOff (fun _ _ => hviews) _).files_eq hfiles hswitch
  refine opened_of_openSource hfiles ?_ hformat hsource
  rw [hswitch, hchecks, hdatabase, hdetect, hfile]

end Plain

/-- A load that tells that its dump was plain has found it so. -/
theorem isPlain_of_dump {σ : Type} {host : Host σ} {session : Session} {options : Options}
    {s s' : σ} {talk : List Exchange} {stats : Stats}
    (h : (dump session options).run.Dialogue host s talk (.ok stats) s')
    (hkind : stats.format.kind = .plain) :
    ∀ format talk t, (Dump.detect options.path options.compression).run.Dialogue host s talk
      (.ok format) t → format.kind = .plain := by
  intro format talk t hdetect
  rw [dump_eq] at h
  obtain ⟨_, format', t', _, -, hdetect', h⟩ := Work.dialogue_bind_ok h
  cases hdetect.value_unique hdetect'
  cases harchive : format.kind with
  | plain => rfl
  | archive =>
    rw [harchive] at h
    have hformat {u : σ} {talk : List Exchange} (h : (do
        options.restorer.restore options.path options.database
        pure { format } : Work Stats).run.Dialogue host u talk (.ok stats) s') :
        stats.format = format := by
      obtain ⟨_, _, _, _, -, -, -, hstats, -⟩ := Work.dialogue_bind_ok h
      cases hstats
      rfl
    have hsame : stats.format = format := by
      dsimp only at h
      split at h
      · obtain ⟨_, _, _, _, -, -, h⟩ := Work.dialogue_bind_ok h
        exact hformat h
      · exact hformat h
    rw [← harchive, ← hsame, hkind]

/-- The statistics of a load of a file that is not compressed tell what was read of the file, and of
the statements there is an account. -/
theorem reads_of_dump {σ : Type} {host : Host σ} {files : σ → Scripted.Tree} {session : Session}
    {options : Options} {s s' : σ} {talk : List Exchange} {bytes : List UInt8} {stats : Stats}
    (hfiles : host.HasFiles files) (hfile : (files s).open? options.path = .ok (.file bytes))
    (h : (dump session options).run.Dialogue host s talk (.ok stats) s')
    (hformat : stats.format = ⟨.none, .plain⟩) :
    stats.totalBytes = some bytes.length ∧
      (∃ front d, Reads (options.scannerOf bytes) front d stats) ∧
      ∃ blocks, Accounted (options.course session (some bytes.length))
        (options.scannerOf bytes).statements talk (.ok stats) blocks := by
  have hplain := isPlain_of_dump h (by rw [hformat])
  rcases follows_of_dump hplain h with ⟨_, _, _, _, -, -, hno⟩ |
    ⟨first, opened, t, hopening, inside, outcome, refusal, t', hload, -, hresult⟩
  · cases hno
  obtain rfl := settle_eq_ok hresult.symm
  obtain ⟨htotal, hsame, hreads⟩ :=
    Job.Asks.run (reads_loadSource session options opened.1 opened.2) hload.run.1 stats rfl
  obtain ⟨content, hcontent, hopened⟩ :=
    opened_of_opening hfiles hfile hopening (by rw [← hsame, hformat])
  obtain ⟨outcome, refusal, blocks, hresult, hloaded⟩ :=
    loaded_of_opens hplain h ⟨first, t, hopening⟩
  obtain rfl := settle_eq_ok hresult.symm
  rw [hopened] at htotal hreads hloaded
  obtain ⟨front, d, hreads⟩ := hreads
  dsimp only at hreads hloaded
  have hnone : content.failure.map StreamFault.plain = none := hreads.failure_eq_none
  rw [hnone, hcontent.bytes_eq (Option.map_eq_none_iff.mp hnone)] at hreads hloaded
  exact ⟨htotal, ⟨front, d, hreads⟩, blocks, hloaded.accounted⟩

end Load

end SqlBackup
