import Mathlib
import SqlBackup.Proofs.Load.Whole

/-!
# Loads of dumps that break off

The text of a dump can fail in the middle: its file cannot be read any further or is corrupt, or the
program that gives it dies. A load executes no statement then that the text, had it gone on, could
have changed, and no group that is not full. It ends with the failure of the text, unless something
else failed before.
-/
namespace SqlBackup.Load

open Scan

variable {σ : Type}

/-- What is known of a load whose text breaks off behind these results with this fault. -/
structure Spared (c : Course) (front : List Result) (fault : Fault) (talk : List Exchange)
    (result : Except Fault Stats) (blocks : List Block) : Prop where
  /-- What is executed and committed belongs to the blocks. -/
  talk_eq : transacted talk = blocks.flatMap (Block.talk c.batches.session)
  full : ∀ block ∈ blocks, block.group.length = c.batches.size
  /-- The groups are those of statements yielded before the text broke off. -/
  groups : (blocks.map Block.group).flatten <+: (front.filterMap Result.statement?).filter c.keeps
  goesOn : ∀ block ∈ blocks.dropLast, block.verdict c.batches = .ok ()
  failed : ∃ fault, result = .error fault
  /-- If the load goes on after all groups, it ends as the text did. -/
  ending : (∀ block ∈ blocks, block.verdict c.batches = .ok ()) → result = .error fault

/-- A fault that ends a load is the verdict on a block. -/
theorem Ends.exists_of_error {settings : BatchSettings} {blocks : List Block} {fault : Fault}
    (h : Ends settings blocks (.error fault)) :
    ∃ block ∈ blocks, block.verdict settings = .error fault := by
  generalize herror : (Except.error fault : Except Fault Unit) = answer at h
  induction h with
  | none => cases herror
  | @stop block _ hverdict =>
    cases herror
    exact ⟨block, List.mem_singleton_self block, hverdict⟩
  | goOn _ _ ih =>
    obtain ⟨block, hblock, hverdict⟩ := ih herror
    exact ⟨block, List.mem_cons_of_mem _ hblock, hverdict⟩

theorem Loaded.spared {c : Course} {sc : Scanner} {failure : StreamFault} {front : List Result}
    {last : Result} {fault : Fault} {talk : List Exchange} {outcome : Except Fault Stats}
    {refusal : Option SessionFault} {blocks : List Block} (h : Loaded c sc talk outcome blocks)
    (hbreaks : sc.BreaksOff failure front last fault) :
    Spared c front fault talk (settle outcome refusal) blocks := by
  have hfault := hbreaks.fault?_eq
  have hgroups := flatten_groups h.groups
  rw [hbreaks.statements_eq] at hgroups
  have hfull := h.full (by rw [hfault]; exact Option.some_ne_none fault)
  cases h.ending with
  | stopped hends =>
    refine ⟨h.talk_eq, hfull, hgroups, hends.verdict_of_mem_dropLast, ⟨_, rfl⟩, fun hall => ?_⟩
    obtain ⟨block, hblock, hverdict⟩ := hends.exists_of_error
    rw [hall block hblock] at hverdict
    cases hverdict
  | broken hends hbroken =>
    rw [hfault, Option.some_inj] at hbroken
    subst hbroken
    exact ⟨h.talk_eq, hfull, hgroups, hends.verdict_of_mem_dropLast, ⟨fault, rfl⟩, fun _ => rfl⟩
  | complete hends hnone =>
    rw [hfault] at hnone
    cases hnone

/-- A text that breaks off is scanned only as far as any continuation would be, and what is loaded
of it stands before the break. A dump that is not compressed breaks off where its file does. -/
theorem spared_of_failing (host : Host σ) (session : Session) (options : Options) (s : σ)
    (hplain : ∀ format talk t, (Dump.detect options.path options.compression).run.Dialogue host s
      talk (.ok format) t → format.kind = .plain)
    (p : List UInt8) (failure : StreamFault) {format : Dump.Format} {totalBytes : Option Nat}
    (hopens : Opens host session options s (format, totalBytes, ⟨p, some failure⟩))
    {result : Except Fault Stats}
    (h : ((dump session options).run.run host s).1.result = .ok result) :
    (∀ settings offset d, ∃ front last fault,
      (Scanner.ofSource ⟨p, some failure⟩ settings offset d).results = front ++ [last] ∧
      (∀ r ∈ front, ∃ statement, r.answer = .ok (some statement)) ∧
      last.answer = .error fault ∧
      (∀ more ending, front <+: (Scanner.ofSource ⟨p ++ more, ending⟩ settings offset d).results) ∧
      (fault = .ofStream settings.name failure ∨ ∀ more ending,
        (Scanner.ofSource ⟨p ++ more, ending⟩ settings offset d).results = front ++ [last]) ∧
      ∀ n, front.length < n →
        ((Scanner.ofSource ⟨p, some failure⟩ settings offset d).call n).answer = .ok none) ∧
    (∃ content,
      OpensFrom host session options s content (format, totalBytes, ⟨p, some failure⟩) ∧
      (format.compression = .none → p = content.bytes.drop options.resumeOffset ∧
        content.failure.map .plain = some failure)) ∧
    ∃ front last fault,
      (options.scanner ⟨p, some failure⟩).BreaksOff failure front last fault ∧
      ∃ talk s' blocks, (dump session options).run.Dialogue host s talk result s' ∧
        Spared (options.course session totalBytes) front fault talk result blocks := by
  refine ⟨?_, ?_, ?_⟩
  · intro settings offset d
    obtain ⟨front, last, fault, hbreaks⟩ :=
      @Scanner.exists_breaksOff (.ofSource ⟨p, some failure⟩ settings offset d) failure rfl rfl
    refine ⟨front, last, fault, hbreaks.results_eq, hbreaks.statements, hbreaks.last_answer,
      hbreaks.certain, hbreaks.fault_eq, fun n hn => ?_⟩
    refine (Scanner.call_eq _ n).2 ?_
    rw [hbreaks.results_eq, List.length_append, List.length_singleton]
    exact hn
  · obtain ⟨content, hcontent⟩ := exists_opensFrom hopens
    refine ⟨content, hcontent, fun hnone => ?_⟩
    injection hcontent.source_eq hnone with htext hfailure
    exact ⟨htext, hfailure.symm⟩
  · obtain ⟨front, last, fault, hbreaks⟩ :=
      @Scanner.exists_breaksOff (options.scanner ⟨p, some failure⟩) failure rfl rfl
    obtain ⟨talk, htalk⟩ := Job.exists_dialogue h
    obtain ⟨outcome, refusal, blocks, rfl, hloaded⟩ := loaded_of_opens hplain htalk hopens
    exact ⟨front, last, fault, hbreaks, talk, _, blocks, htalk, hloaded.spared hbreaks⟩

/-! ### A program that dies and a disk that is worn -/

/-- What a program wrote before it died. The fourth statement is not complete. -/
def tornText : List UInt8 := Text.Utf8.encode "a;\nb;\nc;\nd"

/-- The failure of the program. -/
def tornFault : Fault := .processFailed "/bin/xz" "signal 9" ""

/-- A dump whose program dies. -/
def torn : Scripted.World :=
  { (default : Scripted.World) with
    files := ⟨[(["dump.sql.xz"], .file [])]⟩
    programs := ⟨"/bin", [⟨"xz", false, tornText, [], some "signal 9", []⟩]⟩ }

def tornOptions : Options :=
  { path := "dump.sql.xz", database := "shop", compression := some .xz, batchSize := some 2 }

/-- The failure of the disk. -/
def wornFault : IoFault := .layer .other "Input/output error (os error 5)"

/-- A host on which no file can be read behind this many bytes. -/
def wornHost (count : Nat) : Host Scripted.World where
  answer
    | .file (.read path), w =>
        let content := (w.files.open? path).map fun entry =>
          ⟨entry.content.bytes.take count, some wornFault⟩
        ({ reply := .ok content }, w)
    | request, w => w.answer request

/-- A dump of five statements. -/
def worn : Scripted.World :=
  { (default : Scripted.World) with
    files := ⟨[(["dump.sql"], .file (Text.Utf8.encode "a;\nb;\nc;\nd;\ne;\n"))]⟩ }

/-- The load starts behind the first statement. -/
def wornOptions : Options :=
  { path := "dump.sql", database := "shop", compression := some .none, batchSize := some 2,
    resumeOffset := 3 }

/-- What can be read of the dump: the second statement, the third, and the fourth in part. -/
def wornText : List UInt8 := Text.Utf8.encode "b;\nc;\nd"

/-- The fault of a load that came to an end with one. -/
def fault? (result : Except String (Except Fault Stats)) : Option Fault :=
  match result with
  | .ok (.error fault) => some fault
  | _ => none

theorem eq_of_fault? {result : Except String (Except Fault Stats)} {fault : Fault}
    (h : fault? result = some fault) : result = .ok (.error fault) := by
  rcases result with text | fault' | stats
  · cases h
  · cases h
    rfl
  · cases h

theorem opens_of_run {σ : Type} {host : Host σ} {session : Session} {options : Options} {s : σ}
    {opened : Dump.Format × (Option Nat × Source)}
    (h : ((opening session options).run.run host s).1.result = .ok (.ok opened)) :
    Opens host session options s opened := by
  obtain ⟨talk, htalk⟩ := Job.exists_dialogue h
  exact ⟨talk, _, htalk⟩

/-- Both loads end with the failure of their text, and execute full groups only. -/
theorem spared_of_torn :
    (Opens Scripted.host default tornOptions torn
        (⟨.xz, .plain⟩, none, ⟨tornText, some (.carried tornFault)⟩) ∧
      ((dump default tornOptions).run.run Scripted.host torn).1.result =
        .ok (.error tornFault) ∧
      ∃ front last fault,
        (tornOptions.scanner ⟨tornText, some (.carried tornFault)⟩).BreaksOff (.carried tornFault)
          front last fault ∧
        ∃ talk s' blocks, (dump default tornOptions).run.Dialogue Scripted.host torn talk
            (.error tornFault) s' ∧
          Spared (tornOptions.course default none) front fault talk (.error tornFault) blocks) ∧
    Opens (wornHost 10) default wornOptions worn
      (⟨.none, .plain⟩, some 15, ⟨wornText, some (.plain wornFault)⟩) ∧
    ((dump default wornOptions).run.run (wornHost 10) worn).1.result =
      .ok (.error (.io "dump.sql" wornFault)) ∧
    ((dump default wornOptions).run.run (wornHost 10) worn).2.server.logs =
      [["use shop", "query SELECT @@SESSION.FOREIGN_KEY_CHECKS",
        "query SELECT @@SESSION.UNIQUE_CHECKS", "exec SET SESSION FOREIGN_KEY_CHECKS = 0",
        "exec SET SESSION UNIQUE_CHECKS = 0", "begin", "tx b", "tx c", "commit",
        "exec SET SESSION FOREIGN_KEY_CHECKS = 1", "exec SET SESSION UNIQUE_CHECKS = 1"]] ∧
    (∃ content, OpensFrom (wornHost 10) default wornOptions worn content
        (⟨.none, .plain⟩, some 15, ⟨wornText, some (.plain wornFault)⟩) ∧
      wornText = content.bytes.drop 3 ∧ content.failure = some wornFault) ∧
    ∃ front last fault,
      (wornOptions.scanner ⟨wornText, some (.plain wornFault)⟩).BreaksOff (.plain wornFault)
        front last fault ∧
      ∃ talk s' blocks, (dump default wornOptions).run.Dialogue (wornHost 10) worn talk
          (.error (.io "dump.sql" wornFault)) s' ∧
        Spared (wornOptions.course default (some 15)) front fault talk
          (.error (.io "dump.sql" wornFault)) blocks := by
  have htorn := opens_of_run (show ((opening default tornOptions).run.run Scripted.host
    torn).1.result = .ok (.ok (⟨.xz, .plain⟩, none, ⟨tornText, some (.carried tornFault)⟩)) from rfl)
  have hdied : fault? ((dump default tornOptions).run.run Scripted.host torn).1.result =
      some tornFault := by decide +kernel
  have hworn := opens_of_run (show ((opening default wornOptions).run.run (wornHost 10)
    worn).1.result = .ok (.ok (⟨.none, .plain⟩, some 15, ⟨wornText, some (.plain wornFault)⟩))
    from rfl)
  have hbroke : fault? ((dump default wornOptions).run.run (wornHost 10) worn).1.result =
      some (.io "dump.sql" wornFault) := by decide +kernel
  have hdied := eq_of_fault? hdied
  have hbroke := eq_of_fault? hbroke
  obtain ⟨-, -, hfirst⟩ := spared_of_failing Scripted.host default tornOptions torn
    (fun _ _ _ => kind_of_detect) tornText (.carried tornFault) htorn hdied
  obtain ⟨-, ⟨content, hcontent, hplain⟩, hsecond⟩ := spared_of_failing (wornHost 10) default
    wornOptions worn (fun _ _ _ => kind_of_detect) wornText (.plain wornFault) hworn hbroke
  obtain ⟨htext, hfailure⟩ := hplain rfl
  refine ⟨⟨htorn, hdied, hfirst⟩, hworn, hbroke, by decide +kernel, ⟨content, hcontent, htext, ?_⟩,
    hsecond⟩
  obtain ⟨cause, hcause, hsame⟩ := Option.map_eq_some_iff.mp hfailure
  injection hsame with hsame
  rw [hcause, hsame]

end SqlBackup.Load
