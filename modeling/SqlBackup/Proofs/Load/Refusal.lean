import Mathlib
import SqlBackup.Proofs.Load.Offsets

/-!
# Loads that start behind the front

Only a plain dump that is not compressed can be loaded from an offset on. Such a load executes
nothing that stands before its offset. Of a compressed dump the load is refused, but not before its
database has been created, if that is asked for. The load of an archive takes no notice of the
offset.
-/
namespace SqlBackup

namespace Dump

/-- Only a plain dump is found to be compressed. -/
theorem Format.isPlain_of_ofHeader {path : String} {header : List UInt8}
    (h : (ofHeader path header).compression ≠ .none) : (ofHeader path header).kind = .plain := by
  rw [ofHeader] at h ⊢
  split at h
  · exact absurd rfl h
  · next hmagic =>
    rw [if_neg hmagic]
    split <;> rfl

theorem asks_detect_isPlain (path : String) (explicit : Option Compression) :
    (detect path explicit).Asks (fun _ => True) fun format =>
      format.compression ≠ .none → format.kind = .plain := by
  cases explicit with
  | some compression => exact Work.asks_pure fun _ => rfl
  | none => exact (asks_headerOf trivial).bind fun _ _ => Work.asks_pure Format.isPlain_of_ofHeader

/-- The format that a file with these bytes is found to have. -/
def formatOf (path : String) (explicit : Option Compression) (bytes : List UInt8) : Format :=
  match explicit with
  | some compression => ⟨compression, .plain⟩
  | none => .ofHeader path (bytes.take headerLength)

theorem comesTo_detect {t : Scripted.Tree} {fails : Prop} {path : String} {bytes : List UInt8}
    (h : t.open? path = .ok (.file bytes)) (explicit : Option Compression) :
    (detect path explicit).ComesTo t fails (.ok (formatOf path explicit bytes)) := by
  cases explicit with
  | some compression => exact Work.comesTo_pure _
  | none => exact (comesTo_headerOf h).bind (Work.comesTo_pure _)

end Dump

namespace Load

variable {σ : Type} {host : Host σ} {files : σ → Scripted.Tree} {bytes : List UInt8}
  {session : Session} {options : Options} {s s' t : σ} {first talk : List Exchange}
  {format : Dump.Format} {result : Except Fault Stats}

/-- From this state on, with this dialogue, the dump is found to have this format. -/
def Detects (host : Host σ) (options : Options) (s : σ) (first : List Exchange)
    (format : Dump.Format) (t : σ) : Prop :=
  (Dump.detect options.path options.compression).run.Dialogue host s first (.ok format) t

theorem Detects.unique {format' : Dump.Format} {first' : List Exchange} {t' : σ}
    (h : Detects host options s first format t) (h' : Detects host options s first' format' t') :
    format = format' := Except.ok.inj (Job.Dialogue.value_unique h h')

/-- To find the format of a dump, only its file is read. -/
theorem Detects.reads (h : Detects host options s first format t) :
    ∀ exchange ∈ first, exchange.request = .file (.read options.path) := by
  let reads : Request → Prop := fun request => request = .file (.read options.path)
  have hasks := @Dump.asks_detect reads options.path rfl options.compression
  exact hasks.requests h

theorem Detects.kind_eq (h : Detects host options s first format t)
    (hcompressed : format.compression ≠ .none) : format.kind = .plain :=
  Job.Asks.run (Dump.asks_detect_isPlain options.path options.compression) h.run.1 format rfl
    hcompressed

/-- The format is told from the bytes of the file. -/
theorem Detects.format_eq (hfiles : host.HasFiles files)
    (hfile : (files s).open? options.path = .ok (.file bytes))
    (h : Detects host options s first format t) :
    format = Dump.formatOf options.path options.compression bytes := by
  have hcomes := @Dump.comesTo_detect _ True _ _ hfile options.compression
  obtain ⟨found, hfound, hsame, -⟩ := Job.Looks.run hfiles (.inl trivial) hcomes rfl
  cases hfound.symm.trans h.run.1
  rcases hsame with hsame | ⟨-, fault, hno⟩
  · exact Except.ok.inj hsame
  · cases hno

/-- Where a host tells what is in its files, the format is found. -/
theorem exists_detects (hfiles : host.HasFiles files) (htells : host.Tells files (files s))
    (hfile : (files s).open? options.path = .ok (.file bytes)) :
    ∃ first t, Detects host options s first
      (Dump.formatOf options.path options.compression bytes) t := by
  have hcomes := @Dump.comesTo_detect _ False _ _ hfile options.compression
  obtain ⟨found, hfound, hsame, -⟩ := Job.Looks.run hfiles (.inr htells) hcomes rfl
  rcases hsame with rfl | ⟨hno, -⟩
  · obtain ⟨first, hfirst⟩ := Job.exists_dialogue hfound
    exact ⟨first, _, hfirst⟩
  · exact hno.elim

/-! ### Compressed dumps -/

/-- The request that creates the database of a load. -/
abbrev creation (session : Session) (options : Options) : Request :=
  .session session (.execute (Sql.createDatabase options.database))

/-- How a load is refused whose dump was found to be compressed. -/
structure Refused (host : Host σ) (session : Session) (options : Options) (s : σ)
    (first : List Exchange) (t : σ) : Prop where
  /-- The server has been asked nothing. -/
  bare : options.createDatabase = false → (dump session options).run.Dialogue host s first
    (.error (.resumeUnsupported options.path)) t
  /-- It has been asked to create the database and nothing else. -/
  created : options.createDatabase = true → ∀ answer : Except SessionFault Unit,
    (host.answer (creation session options) t).1.reply = .ok answer →
    (dump session options).run.Dialogue host s (first ++ [⟨creation session options, answer⟩])
      (.error (match answer with
        | .ok _ => .resumeUnsupported options.path
        | .error cause => .session cause)) (host.answer (creation session options) t).2

theorem refused_of_detects (hresume : 0 < options.resumeOffset)
    (h : Detects host options s first format t) (hcompressed : format.compression ≠ .none) :
    Refused host session options s first t := by
  have hplain := h.kind_eq hcompressed
  have hguard : (decide (options.resumeOffset > 0) && format.compression.isCompressed) = true := by
    rw [decide_eq_true hresume, Bool.true_and, Compression.isCompressed, bne_iff_ne]
    exact hcompressed
  constructor
  · intro hcreate
    rw [dump]
    refine Work.dialogue_bind.mpr (.inr ⟨first, format, t, [], (List.append_nil _).symm, h, ?_⟩)
    simp only [hcreate, hplain, hguard]
    exact ⟨rfl, rfl, rfl⟩
  · intro hcreate answer hanswer
    rw [dump]
    refine Work.dialogue_bind.mpr (.inr ⟨first, format, t, _, rfl, h, ?_⟩)
    simp only [hcreate, hplain, hguard]
    have hcall : (session.call (.execute (Sql.createDatabase options.database))).run.Dialogue host t
        [⟨creation session options, answer⟩] (answer.mapError .session)
        (host.answer (creation session options) t).2 :=
      Session.dialogue_call.mpr ⟨answer, rfl, hanswer, rfl, rfl⟩
    cases answer with
    | ok _ => exact Work.dialogue_bind.mpr (.inr ⟨_, (), _, [], rfl, hcall, rfl, rfl, rfl⟩)
    | error cause => exact Work.dialogue_bind.mpr (.inl ⟨.session cause, rfl, hcall⟩)

/-! ### Archives -/

/-- The load of an archive is the load from its front. -/
theorem dialogue_dump_of_archive (h : Detects host options s first format t)
    (harchive : format.kind = .archive) :
    (dump session options).run.Dialogue host s talk result s' ↔
      (dump session { options with resumeOffset := 0 }).run.Dialogue host s talk result s' := by
  rw [dump, dump]
  refine Work.dialogue_bind_congr fun first' format' t' h' => ?_
  cases h.unique h'
  simp only [harchive]

/-! ### Plain dumps -/

/-- What is known of a load that starts at its offset in a plain dump with these bytes. -/
structure Resumed (session : Session) (options : Options) (bytes : List UInt8)
    (talk : List Exchange) (result : Except Fault Stats) : Prop where
  /-- What is executed has been read from the offset on, and none of it is executed twice. -/
  executed : ∃ done : List Statement, done.Sublist (options.scannerOf bytes).statements ∧
    talk.filterMap Exchange.inside? = done.map (·.sql)
  behind : ∀ statement ∈ (options.scannerOf bytes).statements,
    options.resumeOffset < statement.endOffset
  /-- All else that is executed creates the database or sets a variable. -/
  apart : ∀ exchange ∈ talk, ∀ other sql, exchange.request = .session other (.execute sql) →
    sql = Sql.createDatabase options.database ∨
      ∃ name literal, sql = Sql.setVariable name literal
  /-- If nothing fails, all that is read there is executed, but what is passed over. -/
  complete : ∀ stats, result = .ok stats → stats.errors = [] →
    talk.filterMap Exchange.inside? = ((options.scannerOf bytes).statements.filter
      (options.course session (some bytes.length)).keeps).map (·.sql)

theorem detects_of_opening {opened : Dump.Format × (Option Nat × Source)}
    (h : (opening session options).run.Dialogue host s talk (.ok opened) s') :
    ∃ first t, Detects host options s first opened.1 t := by
  rw [opening] at h
  obtain ⟨first, format, t, _, -, hdetect, h⟩ := Work.dialogue_bind_ok h
  obtain ⟨_, _, _, _, -, -, h⟩ := Work.dialogue_bind_ok h
  obtain ⟨_, _, _, _, -, -, h⟩ := Work.dialogue_bind_ok h
  obtain ⟨_, _, _, _, -, -, h⟩ := Work.dialogue_bind_ok h
  obtain ⟨_, _, _, _, -, -, -, hopened, -⟩ := Work.dialogue_bind_ok h
  cases hopened
  exact ⟨first, t, hdetect⟩

/-- The load of a plain dump does not depend on what restores archives. -/
theorem dialogue_dump_of_plain (restorer : Restorer)
    (hplain : ∀ format talk t, (Dump.detect options.path options.compression).run.Dialogue host s
      talk (.ok format) t → format.kind = .plain) :
    (dump session options).run.Dialogue host s talk result s' ↔
      (dump session { options with restorer := restorer }).run.Dialogue host s talk result s' := by
  rw [dump, dump]
  refine Work.dialogue_bind_congr fun first format t h => ?_
  simp only [hplain format first t h, loadStatements_eq]
  rfl

theorem executes_of_plain
    (hplain : ∀ format talk t, (Dump.detect options.path options.compression).run.Dialogue host s
      talk (.ok format) t → format.kind = .plain)
    (h : (dump session options).run.Dialogue host s talk result s') :
    ∀ exchange ∈ talk, ∀ other sql, exchange.request = .session other (.execute sql) →
      sql = Sql.createDatabase options.database ∨
        ∃ name literal, sql = Sql.setVariable name literal := by
  let installed : Options := { options with restorer := .installed }
  have hloads := (asks_dump session installed rfl).requests
    ((dialogue_dump_of_plain .installed hplain).mp h)
  intro exchange hexchange other sql hsql
  have hload := hloads exchange hexchange
  rw [hsql] at hload
  cases hload with
  | create => exact .inl rfl
  | set name literal => exact .inr ⟨name, literal, rfl⟩
  | transacts hno => cases hno

theorem resumed_of_dump (hfiles : host.HasFiles files)
    (hfile : (files s).open? options.path = .ok (.file bytes))
    (hdetected : ∀ first format t, Detects host options s first format t →
      format = ⟨.none, .plain⟩)
    (h : (dump session options).run.Dialogue host s talk result s') :
    Resumed session options bytes talk result := by
  have hbehind : ∀ statement ∈ (options.scannerOf bytes).statements,
      options.resumeOffset < statement.endOffset := fun statement hstatement =>
    (List.pairwise_cons.mp (options.rising_scannerOf bytes).increasing).1 _
      (List.mem_map_of_mem hstatement)
  have hplain : ∀ format talk t, (Dump.detect options.path options.compression).run.Dialogue host s
      talk (.ok format) t → format.kind = .plain := by
    intro format talk t hdetect
    rw [hdetected talk format t hdetect]
  by_cases hopens : ∃ opened, Opens host session options s opened
  · obtain ⟨opened, talk', t', hopening⟩ := hopens
    obtain ⟨first, t, hdetect⟩ := detects_of_opening hopening
    obtain ⟨content, hcontent, hopened⟩ :=
      opened_of_opening hfiles hfile hopening (by rw [hdetected _ _ _ hdetect])
    obtain ⟨outcome, refusal, blocks, rfl, hloaded⟩ :=
      loaded_of_opens hplain h ⟨talk', t', hopening⟩
    rw [hopened] at hloaded
    dsimp only at hloaded
    refine ⟨⟨_, hloaded.accounted.once.trans (statements_of_part options hcontent).sublist,
      hloaded.accounted.executed⟩, hbehind, executes_of_plain hplain h, ?_⟩
    intro stats hstats hnone
    obtain rfl := settle_eq_ok hstats
    have hwhole : content.failure.map StreamFault.plain = none := hloaded.failure_eq_none
    rw [hwhole, hcontent.bytes_eq (Option.map_eq_none_iff.mp hwhole)] at hloaded
    exact (hloaded.accounted.allExecuted stats rfl hnone).1
  · rw [not_exists] at hopens
    obtain ⟨hsilent, fault, rfl⟩ := silent_of_not_opens hplain h hopens
    refine ⟨⟨[], List.nil_sublist _, ?_⟩, hbehind, executes_of_plain hplain h, fun stats hno => ?_⟩
    · rw [← inside_transacted, hsilent]
      rfl
    · cases hno

/-- A load that is to start behind the front of its dump looks at the format first. If the dump is
compressed the load is refused, and no more is asked of the server than to create the database, if
that is asked for. If it is an archive it is restored from its front. Of a plain dump that is not
compressed, only statements are executed that are read from the offset on. -/
theorem resumed_or_refused (host : Host σ) (files : σ → Scripted.Tree)
    (hfiles : host.HasFiles files) (session : Session) (options : Options) (s : σ)
    (hresume : 0 < options.resumeOffset) :
    (∀ first format t, Detects host options s first format t →
      (∀ exchange ∈ first, exchange.request = .file (.read options.path)) ∧
      (format.compression ≠ .none → Refused host session options s first t) ∧
      (format.kind = .archive → ∀ talk result s',
        (dump session options).run.Dialogue host s talk result s' ↔
          (dump session { options with resumeOffset := 0 }).run.Dialogue host s talk result s')) ∧
    ∀ bytes, (files s).open? options.path = .ok (.file bytes) →
      (∀ first format t, Detects host options s first format t →
        format = Dump.formatOf options.path options.compression bytes) ∧
      (host.Tells files (files s) → ∃ first t, Detects host options s first
        (Dump.formatOf options.path options.compression bytes) t) ∧
      (Dump.formatOf options.path options.compression bytes = ⟨.none, .plain⟩ →
        ∀ talk result s', (dump session options).run.Dialogue host s talk result s' →
          Resumed session options bytes talk result) := by
  constructor
  · exact fun first format t h => ⟨h.reads, refused_of_detects hresume h,
      fun harchive talk result s' => dialogue_dump_of_archive h harchive⟩
  · intro bytes hfile
    refine ⟨fun first format t h => h.format_eq hfiles hfile,
      fun htells => exists_detects hfiles htells hfile, fun hformat talk result s' h => ?_⟩
    refine resumed_of_dump hfiles hfile (fun first format t hdetect => ?_) h
    rw [hdetect.format_eq hfiles hfile, hformat]

/-! ### Three files and a program -/

/-- A plain dump, the head of a compressed one, the head of an archive, and what restores that. -/
def assorted : Scripted.World :=
  { (default : Scripted.World) with
    files := ⟨[(["dump.sql"], .file twoStatements), (["d.sql.gz"], .file [0x1F, 0x8B, 8, 0]),
      (["d.dump"], .file (Dump.archiveMagic ++ [0]))]⟩
    programs := ⟨"/bin", [⟨"pg_restore", false, [], [], none, []⟩]⟩ }

/-- The load of one of the three files from this offset on. -/
def loading (path : String) (offset : Nat) (createDatabase : Bool) : Options :=
  { path, database := "copy", createDatabase, resumeOffset := offset }

/-- The load of the compressed dump is refused before anything is asked of the server. The load of
the plain one from behind its first statement executes the other. -/
theorem resumed_or_refused_of_assorted :
    (∃ talk w, (dump default (loading "d.sql.gz" 5 false)).run.Dialogue Scripted.host assorted talk
        (.error (.resumeUnsupported "d.sql.gz")) w ∧
      ∀ exchange ∈ talk, exchange.request = .file (.read "d.sql.gz")) ∧
    ∃ talk stats w, (dump default (loading "dump.sql" 3 true)).run.Dialogue Scripted.host assorted
        talk (.ok stats) w ∧
      talk.filterMap Exchange.inside? = ["b"] := by
  constructor
  · obtain ⟨hformat, hfile⟩ := resumed_or_refused Scripted.host Scripted.World.files
      Scripted.hasFiles_host default (loading "d.sql.gz" 5 false) assorted (by decide)
    obtain ⟨-, hdetects, -⟩ := hfile [0x1F, 0x8B, 8, 0] (by decide +kernel)
    obtain ⟨first, t, hdetect⟩ := hdetects (Scripted.tells_host _)
    obtain ⟨hreads, hrefused, -⟩ := hformat first _ t hdetect
    exact ⟨first, t, (hrefused (by decide +kernel)).bare rfl, hreads⟩
  · have hreport : report? ((dump default (loading "dump.sql" 3 true)).run.run Scripted.host
        assorted).1.result = some (5, [0x3B], [], ⟨.none, .plain⟩) := by decide +kernel
    obtain ⟨stats, hstats, -, -, hnone, -⟩ := exists_of_report? hreport
    obtain ⟨talk, htalk⟩ := Job.exists_dialogue hstats
    have hresumed := ((resumed_or_refused Scripted.host Scripted.World.files
      Scripted.hasFiles_host default (loading "dump.sql" 3 true) assorted (by decide)).2
      twoStatements (by decide +kernel)).2.2 (by decide +kernel) talk _ _ htalk
    refine ⟨talk, stats, _, htalk, (hresumed.complete stats rfl hnone).trans ?_⟩
    decide +kernel

/-- The database is created although the load of the compressed dump is refused, and the archive is
restored as a whole although the load was to start behind its front. -/
theorem restored_of_assorted :
    (∃ talk w, (dump default (loading "d.sql.gz" 5 true)).run.Dialogue Scripted.host assorted talk
        (.error (.resumeUnsupported "d.sql.gz")) w ∧
      ⟨creation default (loading "d.sql.gz" 5 true), .ok ()⟩ ∈ talk) ∧
    ∃ talk stats w, (dump default (loading "d.dump" 5 false)).run.Dialogue Scripted.host assorted
        talk (.ok stats) w ∧
      w.programs.stubs.map (·.starts) = [["--dbname copy --no-owner d.dump"]] := by
  constructor
  · have hdetect : Detects Scripted.host (loading "d.sql.gz" 5 true) assorted _
        (.ofHeader "d.sql.gz" [0x1F, 0x8B, 8, 0]) _ :=
      ⟨.ok ⟨[0x1F, 0x8B, 8, 0], none⟩, _, by decide +kernel, rfl, rfl, rfl, rfl⟩
    have hrefused : Refused Scripted.host default (loading "d.sql.gz" 5 true) assorted _ _ :=
      refused_of_detects (by decide) hdetect (by decide +kernel)
    exact ⟨_, _, hrefused.created rfl (.ok ()) (by decide +kernel),
      List.mem_append_right _ List.mem_cons_self⟩
  · have hresult : ((dump default (loading "d.dump" 5 false)).run.run Scripted.host
        assorted).1.result = .ok (.ok { format := ⟨.none, .archive⟩ }) := rfl
    obtain ⟨talk, htalk⟩ := Job.exists_dialogue hresult
    exact ⟨talk, _, _, htalk, by decide +kernel⟩

end Load

end SqlBackup
