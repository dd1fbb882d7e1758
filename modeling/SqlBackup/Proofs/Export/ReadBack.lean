import SqlBackup.Proofs.Codec.Stored
import SqlBackup.Proofs.Export.Run

/-!
# Exports read back

A scanner reads from the dump of a database the statements that make the database anew, each once
and in the order in which they were written, whatever the rows hold. If the dump is packed on its
way into the file, it reads them from what the file unpacks to.
-/
namespace SqlBackup.Export

open Text Text.Utf8

theorem mem_of_select {filter : TableFilter} {available tables : List String}
    (h : filter.select available = .ok tables) : ∀ name ∈ tables, name ∈ available := by
  rw [TableFilter.select] at h
  split at h
  · cases h
    exact fun name hname => List.mem_of_mem_filter hname
  · dsimp only at h
    split at h
    · next hmissing =>
      cases h
      intro name hname
      rw [List.isEmpty_iff, List.filter_eq_nil_iff] at hmissing
      simpa using hmissing name (List.mem_of_mem_filter hname)
    · cases h

section Way

variable {σ : Type} {host : Host σ} {session : Session} {options : Options} {c : Content}
  {ready : σ → Prop} {file : σ → Option (List UInt8)} {s : σ} {tables : List String} {way : Way}
  {settings : Scan.Settings} (hserver : Serves host session options c ready file)
  (hfile : Stores host options.path ready file)
  (huse : Replies host ready file s (.session session (.useDatabase options.database)) (.ok ()))
  (hselect : (TableFilter.ofPatterns options.tables options.exclude).bind
    (TableFilter.select · c.tables) = .ok tables)
  (hplain : c.IsPlain session options tables)
  (hlimit : ∀ sql ∈ c.statements options tables, (encode sql).length + 1 ≤ settings.limit)
include hserver hfile huse hselect hplain hlimit

/-- The text that an export has got into its file is that of the statements. -/
theorem exists_completed (hway : options.Inside way) :
    ∃ stats text dump,
      ((database session options).run.run host s).1.result = .ok (.ok stats) ∧
        Completed way text dump ∧
        file ((database session options).run.run host s).2 = some dump ∧
        (Scanner.ofSource ⟨text, none⟩ settings).results.map Scan.Result.sql? =
          (((c.statements options tables).map trim).filter (!·.isEmpty)).map
            (fun sql => .ok (some sql)) ++ [.ok none] := by
  have htables : ∀ name ∈ tables, name ∈ c.tables := by
    cases hfilter : TableFilter.ofPatterns options.tables options.exclude with
    | error fault =>
      rw [hfilter] at hselect
      cases hselect
    | ok filter =>
      rw [hfilter] at hselect
      exact mem_of_select hselect
  obtain ⟨_, hresult, stats, rfl, now, dump, hcompleted, hdump⟩ :=
    (succeeds_database hserver hfile huse hway htables hselect).run
  refine ⟨stats, _, dump, hresult, hcompleted, hdump, ?_⟩
  rw [← c.filterMap_pieces session options tables now] at hlimit ⊢
  exact Dump.sql_results_of_pieces (Content.isClosed_pieces hplain now) settings hlimit

/-- The dump of an export that is packed is read as the statements by whoever gets the text again
from what an encoder hands over that is told a text and, once, that this is all. -/
theorem sql_results_of_packed {encoder : Codec.Encoder} {unpack : List UInt8 → Source}
    (hway : options.Inside (.packed encoder))
    (hunpack : ∀ told, .finish ∉ told →
      unpack (encoder.handed (.finish :: told)) = ⟨Codec.Encoder.textOf told, none⟩) :
    ∃ stats dump,
      ((database session options).run.run host s).1.result = .ok (.ok stats) ∧
        file ((database session options).run.run host s).2 = some dump ∧
        (Scanner.ofSource (unpack dump) settings).results.map Scan.Result.sql? =
          (((c.statements options tables).map trim).filter (!·.isEmpty)).map
            (fun sql => .ok (some sql)) ++ [.ok none] := by
  obtain ⟨stats, _, dump, hresult, hcompleted, hdump, hsql⟩ :=
    exists_completed hserver hfile huse hselect hplain hlimit hway
  refine ⟨stats, dump, hresult, hdump, ?_⟩
  cases hcompleted with
  | packed _ told hopen => rwa [hunpack told hopen]

/-- If the text is stored in a gzip file, its reader gets the statements, however it asks. -/
theorem sql_results_of_gzip (hgzip : options.compression = .gzip)
    (hexternal : options.external = false)
    (hencoder : options.encoders.gzip = .atOnce Codec.Gzip.encode) (demand : Codec.Demand) :
    ∃ stats dump,
      ((database session options).run.run host s).1.result = .ok (.ok stats) ∧
        file ((database session options).run.run host s).2 = some dump ∧
        (Scanner.ofSource (Codec.Gzip.decode demand ⟨dump, none⟩).source settings).results.map
            Scan.Result.sql? =
          (((c.statements options tables).map trim).filter (!·.isEmpty)).map
            (fun sql => .ok (some sql)) ++ [.ok none] := by
  refine sql_results_of_packed hserver hfile huse hselect hplain hlimit (.gzip hgzip hexternal)
    fun told hopen => ?_
  rw [hencoder, Codec.Encoder.handed, Codec.Encoder.handed_atOnce _ hopen, List.nil_append]
  exact Codec.Gzip.source_of_encode demand (Codec.Encoder.textOf told)

end Way

/-- An export without compression, of any content whatever its rows hold, succeeds, and a scanner
of the dump yields the statements that make the content anew, in their order and but for blank
ones. -/
theorem sql_results_of_export {σ : Type} (host : Host σ) (session : Session) (options : Options)
    (c : Content) (ready : σ → Prop) (file : σ → Option (List UInt8)) (s : σ)
    (tables : List String) (settings : Scan.Settings)
    (hserver : Serves host session options c ready file)
    (hfile : Stores host options.path ready file)
    (huse : Replies host ready file s (.session session (.useDatabase options.database)) (.ok ()))
    (huncompressed : options.compression = .none)
    (hselect : (TableFilter.ofPatterns options.tables options.exclude).bind
      (TableFilter.select · c.tables) = .ok tables)
    (hplain : c.IsPlain session options tables)
    (hlimit : ∀ sql ∈ c.statements options tables, (encode sql).length + 1 ≤ settings.limit) :
    ∃ stats dump,
      ((database session options).run.run host s).1.result = .ok (.ok stats) ∧
        file ((database session options).run.run host s).2 = some dump ∧
        (Scanner.ofSource ⟨dump, none⟩ settings).results.map Scan.Result.sql? =
          (((c.statements options tables).map trim).filter (!·.isEmpty)).map
            (fun sql => .ok (some sql)) ++ [.ok none] := by
  obtain ⟨stats, _, dump, hresult, hcompleted, hdump, hsql⟩ :=
    exists_completed hserver hfile huse hselect hplain hlimit (.plain huncompressed)
  cases hcompleted
  exact ⟨stats, _, hresult, hdump, hsql⟩

def notebook : Content where
  tables := ["no;tes"]
  table := fun _ => notes
  setting? := fun _ => some (.text "STRICT")

theorem serves_notes :
    Serves Scripted.host notesSession notesOptions notebook NotesReady notesFile where
  pin w hw sql _ := by
    obtain ⟨_, -, h⟩ := replies_notes hw notesSession (.execute sql)
    exact h
  letGo w hw sql _ := by
    obtain ⟨_, -, h⟩ := replies_notes hw notesSession (.execute sql)
    exact ⟨_, h⟩
  tables w hw :=
    ⟨⟨["Tables_in_d"], [[.text "no;tes"]]⟩, by decide,
      replies_notes_query hw (by decide +kernel)⟩
  setting w hw name hname := by
    obtain rfl := List.mem_singleton.mp hname
    exact ⟨⟨["@@SESSION.sql_mode"], [[.text "STRICT"]]⟩, by decide,
      replies_notes_query hw (by decide +kernel)⟩
  creation w hw name hname := by
    obtain rfl := List.mem_singleton.mp hname
    exact servesTable_notes.creation w hw
  order w hw name hname := by
    obtain rfl := List.mem_singleton.mp hname
    exact servesTable_notes.order w hw
  page w hw name hname := by
    obtain rfl := List.mem_singleton.mp hname
    exact servesTable_notes.page w hw
  now w hw := ⟨w.now, rfl, hw, rfl⟩
  tell w hw event := ⟨rfl, hw, rfl⟩

theorem isPlain_notes : notebook.IsPlain notesSession notesOptions ["no;tes"] where
  product := ⟨by decide, by decide⟩
  version := ⟨by decide, by decide⟩
  database := ⟨by decide, by decide⟩
  names := by
    intro name hname
    obtain rfl := List.mem_singleton.mp hname
    exact ⟨by decide, by decide⟩
  tables := by
    intro name _
    have htable : notebook.table name = notes := rfl
    rw [htable]
    refine ⟨by decide, by decide, ?_, ?_⟩
    · have hcolumns : ∀ name ∈ notes.columns, '\\' ∉ name.toList ∧ '\n' ∉ name.toList := by decide
      exact fun column hcolumn => ⟨(hcolumns column hcolumn).1, (hcolumns column hcolumn).2⟩
    · have hnumeral : Dump.IsNumeral "-1.50" :=
        ⟨"-", "1.50", "", rfl, by decide, ⟨by decide, by simp⟩, .inl rfl⟩
      simp [notes, Dump.Encodable, hnumeral]
  saved := by
    intro name hname
    obtain rfl := List.mem_singleton.mp hname
    simp [IsIdentifier]
  settings := by
    intro name _ value hvalue
    cases hvalue
    trivial

/-- The statements of the dump of the notebook. -/
def notesStatements : List String :=
  ["SET SESSION sql_mode = 'STRICT'", "SET NAMES utf8mb4", "SET FOREIGN_KEY_CHECKS = 0",
    "SET UNIQUE_CHECKS = 0", "SET AUTOCOMMIT = 0", "DROP TABLE IF EXISTS `no;tes`", notes.creation,
    "INSERT INTO `no;tes` (`id`, `body`, `raw`) VALUES\n" ++
      "(-1, 'it\\'s; -- not\\n/* over */ \\\\', 0xFF00)",
    "INSERT INTO `no;tes` (`id`, `body`, `raw`) VALUES\n(2, -1.50, NULL)",
    "COMMIT", "SET UNIQUE_CHECKS = 1", "SET FOREIGN_KEY_CHECKS = 1"]

theorem statements_notebook :
    notebook.statements notesOptions ["no;tes"] = notesStatements := by
  have hpages : Dump.chunks 2 notes.rows = [notes.rows] := by
    rw [Dump.chunks_eq (by decide) (by decide)]
    exact congrArg _ (Dump.chunks_nil 2)
  have hbatches : Dump.chunks 1 notes.rows = notes.rows.map fun row => [row] := by
    rw [Dump.chunks_eq (by decide) (by decide), Dump.chunks_eq (by decide) (by decide)]
    exact congrArg _ (congrArg _ (Dump.chunks_nil 1))
  have htable : notes.statements notesOptions.table "no;tes" =
      (notesStatements.drop 5).take 4 := by
    have hfetch : max 1 notesOptions.table.fetchSize = 2 := rfl
    have hbatch : max 1 notesOptions.table.batchRows = 1 := rfl
    rw [Table.statements, hfetch, hbatch, hpages]
    simp only [List.flatMap_singleton, hbatches]
    decide
  have hnotes : notebook.table "no;tes" = notes := rfl
  rw [Content.statements, List.flatMap_singleton, hnotes, htable]
  decide

theorem sql_results_of_notes :
    ∃ stats dump,
      ((database notesSession notesOptions).run.run Scripted.host notesWorld).1.result =
          .ok (.ok stats) ∧
        notesFile ((database notesSession notesOptions).run.run Scripted.host notesWorld).2 =
          some dump ∧
        (Scanner.ofSource ⟨dump, none⟩).results.map Scan.Result.sql? =
          notesStatements.map (fun sql => .ok (some sql)) ++ [.ok none] := by
  have huse : Replies Scripted.host NotesReady notesFile notesWorld
      (.session notesSession (.useDatabase notesOptions.database)) (.ok ()) := by
    obtain ⟨_, -, h⟩ := replies_notes notesReady_world notesSession (.useDatabase "d")
    exact h
  have hlimit : ∀ sql ∈ notesStatements, (encode sql).length + 1 ≤ ({} : Scan.Settings).limit := by
    decide
  have htrimmed : (notesStatements.map trim).filter (!·.isEmpty) = notesStatements := by
    decide +kernel
  have hsql := sql_results_of_export Scripted.host notesSession notesOptions notebook NotesReady
    notesFile notesWorld ["no;tes"] {} serves_notes stores_notes huse rfl rfl isPlain_notes
    (statements_notebook ▸ hlimit)
  rwa [statements_notebook, htrimmed] at hsql

end SqlBackup.Export
