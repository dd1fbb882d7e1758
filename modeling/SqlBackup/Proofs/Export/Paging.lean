import SqlBackup.Proofs.Export.Content
import SqlBackup.Proofs.Export.Outlet
import SqlBackup.Proofs.Scripted.Walk
import SqlBackup.Scripted.Host

/-!
# Paging through a table

The rows of a table are cut twice: into the pages that the server is asked for, and each page into
the groups that one statement inserts. The two sizes have nothing to do with each other. No row is
lost, repeated or moved, however the number of rows stands to the sizes.
-/
namespace SqlBackup.Export

open Dump (Piece chunks chunks_eq chunks_nil)
open Text.Utf8 (encode)

variable {σ : Type}

/-- The host gives this reply, and neither what holds of it nor the file changes. -/
def Replies (host : Host σ) (ready : σ → Prop) (file : σ → Option (List UInt8)) (s : σ)
    (request : Request) (reply : request.Reply) : Prop :=
  (host.answer request s).1.reply = .ok reply ∧ ready (host.answer request s).2 ∧
    file (host.answer request s).2 = file s

/-- A state in which no more was done than to ask the server. -/
def Same (ready : σ → Prop) (file : σ → Option (List UInt8)) (s t : σ) : Prop :=
  ready t ∧ file t = file s

/-- A host whose server answers what the export of a table asks by what it holds of the table. It
gives the rows of a page out of one fixed order. -/
structure ServesTable (host : Host σ) (session : Session) (options : TableOptions)
    (database name : String) (t : Table) (ready : σ → Prop) (file : σ → Option (List UInt8)) :
    Prop where
  creation : ∀ s, ready s → ∃ r : QueryResult,
    r.cellText? 0 Sql.createTableColumn = some t.creation ∧
      Replies host ready file s (.session session (.query (Sql.showCreateTable name))) (.ok r)
  order : ∀ s, ready s → ∃ r : QueryResult, r.firstColumn = t.order ∧
    Replies host ready file s (.session session (.query (Sql.orderColumns database name))) (.ok r)
  page : ∀ s, ready s → ∀ offset ≤ t.rows.length,
    Replies host ready file s
      (.session session (.query
        (Sql.selectPage name t.order (max 1 options.fetchSize) offset)))
      (.ok ⟨t.columns, (t.rows.drop offset).take (max 1 options.fetchSize)⟩)

variable {host : Host σ} {session : Session} {options : TableOptions} {database name : String}
  {t : Table} {path : String} {way : Way} {ready : σ → Prop}
  {file : σ → Option (List UInt8)} {s : σ} {o : Outlet} {text : List UInt8}

theorem succeeds_replies {call : Session.Call} {reply : call.Reply}
    (h : Replies host ready file s (.session session call) (.ok reply)) :
    (session.call call).Succeeds host s fun r t => r = reply ∧ Same ready file s t :=
  Session.succeeds_call h.1 ⟨rfl, h.2⟩

theorem succeeds_creation (hserver : ServesTable host session options database name t ready file)
    (hs : ready s) : (creation session name).Succeeds host s fun sql s' =>
      sql = t.creation ∧ Same ready file s s' := by
  obtain ⟨r, hr, hreply⟩ := hserver.creation s hs
  rw [creation]
  refine (succeeds_replies hreply).bind ?_
  rintro _ s' ⟨rfl, hs'⟩
  simp only [hr]
  exact Work.succeeds_pure ⟨rfl, hs'⟩

section Run

variable (hserver : ServesTable host session options database name t ready file)
  (hfile : Stores host path ready file)
include hserver hfile

/-- Paging through a table writes all its rows from an offset on, and ends behind the last. -/
theorem succeeds_exportRows {offset : Nat} (hoffset : offset ≤ t.rows.length)
    (h : o.Put path way ready file text s) :
    (exportRows session options name t.order offset o).Succeeds host s fun r s' =>
      r.1 = t.rows.length ∧ r.2.Put path way ready file
        (text ++ ((chunks (max 1 options.fetchSize) (t.rows.drop offset)).flatMap fun rows =>
          Dump.inserts name (max 1 options.batchRows) ⟨t.columns, rows⟩).flatMap Piece.bytes)
        s' := by
  have hpage := hserver.page
  obtain ⟨limit, hlimit⟩ : ∃ limit, limit = max 1 options.fetchSize := ⟨_, rfl⟩
  have hpositive : 0 < limit := hlimit ▸ lt_of_lt_of_le Nat.one_pos (le_max_left _ _)
  rw [← hlimit] at hpage ⊢
  generalize hrest : t.rows.drop offset = rest
  -- By induction on the rows that are left. The offset is always that of the first of them.
  induction hn : rest.length using Nat.strong_induction_on generalizing offset rest o text s with
  | _ n ih =>
  have hall : rest.length = t.rows.length - offset := by
    rw [← hrest, List.length_drop]
  have hreply := hpage s h.isReady offset hoffset
  rw [hrest] at hreply
  rw [exportRows, ← hlimit]
  refine (succeeds_replies hreply).bind ?_
  rintro _ s₁ ⟨rfl, hs₁⟩
  have hput := h.of_keeps hs₁.1 hs₁.2
  by_cases hempty : rest = []
  · subst hempty
    rw [chunks_nil, List.flatMap_nil, List.flatMap_nil, List.append_nil]
    simp only [List.take_nil, List.length_nil, ↓reduceDIte]
    rw [List.length_nil] at hall
    exact Work.succeeds_pure ⟨by omega, hput⟩
  · have hlength := List.length_pos_iff.mpr hempty
    have htake : (rest.take limit).length ≠ 0 := by
      rw [List.length_take]
      omega
    simp only [htake, ↓reduceDIte]
    refine (Outlet.succeeds_putAll hfile hput _).bind fun o' s₂ hput' => ?_
    rw [chunks_eq hpositive hempty, List.flatMap_cons, List.flatMap_append, ← List.append_assoc]
    have hcount := t.countable
    by_cases hlast : (rest.take limit).length < limit ∨
        offsetLimit ≤ offset + (rest.take limit).length
    · simp only [hlast, ↓reduceDIte]
      rw [List.length_take] at hlast ⊢
      -- A page that is not full is the last one.
      have hdone : rest.drop limit = [] := by
        rw [List.drop_eq_nil_iff]
        omega
      rw [hdone, chunks_nil, List.flatMap_nil, List.flatMap_nil, List.append_nil]
      exact Work.succeeds_pure ⟨by omega, hput'⟩
    · simp only [hlast, ↓reduceDIte]
      have hfull : (rest.take limit).length = limit := by
        rw [List.length_take] at hlast ⊢
        omega
      rw [hfull]
      refine ih _ ?_ ?_ hput' (rest.drop limit) ?_ rfl
      · rw [List.length_drop]
        omega
      · rw [List.length_take] at hfull
        omega
      · rw [← hrest, List.drop_drop]

theorem succeeds_exportTable (h : o.Put path way ready file text s) :
    (exportTable session options database name o).Succeeds host s fun r s' =>
      r.1 = (if options.structureOnly then 0 else t.rows.length) ∧
        r.2.Put path way ready file
          (text ++ (t.pieces options name).flatMap Piece.bytes) s' := by
  rw [exportTable, Table.pieces, List.flatMap_append, List.flatMap_cons, ← List.append_assoc,
    ← List.append_assoc]
  refine (Outlet.succeeds_putAll hfile h _).bind fun o₁ s₁ h₁ => ?_
  refine (succeeds_creation hserver h₁.isReady).bind ?_
  rintro _ s₂ ⟨rfl, hs₂⟩
  refine (Outlet.succeeds_put hfile (h₁.of_keeps hs₂.1 hs₂.2) _).bind fun o₃ s₃ h₃ => ?_
  split
  · rw [List.flatMap_nil, List.append_nil]
    exact Work.succeeds_pure ⟨rfl, h₃⟩
  · refine (Outlet.succeeds_putAll hfile h₃ _).bind fun o₄ s₄ h₄ => ?_
    obtain ⟨r, hr, hreply⟩ := hserver.order s₄ h₄.isReady
    refine (succeeds_replies hreply).bind ?_
    rintro _ s₅ ⟨rfl, hs₅⟩
    rw [hr, List.flatMap_append, ← List.append_assoc]
    exact succeeds_exportRows hserver hfile (Nat.zero_le _) (h₄.of_keeps hs₅.1 hs₅.2)

end Run

/-- No part is empty, and none is too long. -/
theorem length_of_mem_chunks {α : Type} {size : Nat} {xs part : List α}
    (h : part ∈ chunks size xs) : 1 ≤ part.length ∧ part.length ≤ size := by
  fun_induction chunks size xs with
  | case1 xs none => cases h
  | case2 xs none ih =>
    rw [not_or] at none
    rcases List.mem_cons.mp h with rfl | h
    · have hlength := List.length_pos_iff.mpr none.1
      rw [List.length_take]
      omega
    · exact ih h

/-- The rows in the groups that one statement each inserts. -/
def Table.batches (t : Table) (options : TableOptions) : List (List (List Value)) :=
  (chunks (max 1 options.fetchSize) t.rows).flatMap (chunks (max 1 options.batchRows))

theorem Table.inserts_eq (t : Table) (options : TableOptions) (name : String) :
    t.inserts options name = (t.batches options).map (Dump.insert name t.columns) := by
  rw [Table.inserts, Table.batches, List.map_flatMap]
  rfl

/-- The groups are all the rows, in their order. -/
theorem Table.flatten_batches (t : Table) (options : TableOptions) :
    (t.batches options).flatten = t.rows := by
  have hflatten : ∀ rows : List (List Value),
      (chunks (max 1 options.batchRows) rows).flatten = rows :=
    fun rows => Dump.flatten_chunks (by omega) rows
  rw [Table.batches, List.flatMap_def, List.flatten_flatten, List.map_map]
  simp only [Function.comp_def, hflatten, List.map_id']
  exact Dump.flatten_chunks (by omega) t.rows

theorem Table.length_of_mem_batches {batch : List (List Value)}
    (h : batch ∈ t.batches options) :
    1 ≤ batch.length ∧ batch.length ≤ max 1 options.batchRows := by
  obtain ⟨page, -, hbatch⟩ := List.mem_flatMap.mp h
  exact length_of_mem_chunks hbatch

/-- The export of a table of any rows, with any sizes of pages and of statements, succeeds and tells
how many rows there are. What it has put is the heading, and then statements that each insert at
least one row and no more than they may; one behind the other these are the rows of the table, each
once and in the order in which the server pages them. -/
theorem paged_of_exportTable (host : Host σ) (session : Session) (options : TableOptions)
    (database name : String) (t : Table) (path : String) (way : Way)
    (ready : σ → Prop) (file : σ → Option (List UInt8)) (o : Outlet) (text : List UInt8) (s : σ)
    (hserver : ServesTable host session options database name t ready file)
    (hfile : Stores host path ready file)
    (hput : o.Put path way ready file text s) :
    ∃ (o' : Outlet) (batches : List (List (List Value))),
      ((exportTable session options database name o).run.run host s).1.result =
          .ok (.ok (if options.structureOnly then 0 else t.rows.length, o')) ∧
        o'.Put path way ready file
          (text ++ (Dump.structureHeading name options.dropFirst ++ Piece.statement t.creation ::
            if options.structureOnly then []
            else Dump.dataHeading name ++ batches.map fun rows =>
              Piece.statement (Dump.insertHead name t.columns ++
                ",\n".intercalate (rows.map Value.rowLiteral))).flatMap Piece.bytes)
          ((exportTable session options database name o).run.run host s).2 ∧
        batches.flatten = t.rows ∧
        ∀ batch ∈ batches, 1 ≤ batch.length ∧ batch.length ≤ max 1 options.batchRows := by
  obtain ⟨_, hresult, ⟨_, o'⟩, rfl, rfl, hput'⟩ := (succeeds_exportTable hserver hfile hput).run
  refine ⟨o', t.batches options, hresult, ?_, t.flatten_batches options,
    fun batch hbatch => Table.length_of_mem_batches hbatch⟩
  rwa [Table.pieces, Table.inserts_eq] at hput'

/-- A table whose names and rows hold what a scanner looks for. -/
def notes : Table where
  creation := "CREATE TABLE `no;tes` (\n  `id` int COMMENT 'a;b',\n  `body` text)"
  columns := ["id", "body", "raw"]
  order := ["id"]
  rows := [[.int (-1), .text "it's; -- not\n/* over */ \\", .bytes [0xFF, 0x00]],
    [.uint 2, .decimal "-1.50", .null]]
  countable := by decide

def notesOptions : Options :=
  { path := "d.sql", database := "d", saved := ["sql_mode"]
    table := { fetchSize := 2, batchRows := 1 } }

def notesSession : Session := ⟨0, "MySQL", "8.0.36"⟩

/-- What a scripted server is to answer to each query about the notebook. -/
def notesAnswers : List (String × QueryResult) :=
  [(Sql.listTables "d", ⟨["Tables_in_d"], [[.text "no;tes"]]⟩),
    (Sql.readVariable "sql_mode", ⟨["@@SESSION.sql_mode"], [[.text "STRICT"]]⟩),
    (Sql.showCreateTable "no;tes",
      ⟨["Table", "Create Table"], [[.text "no;tes", .text notes.creation]]⟩),
    (Sql.orderColumns "d" "no;tes", ⟨["COLUMN_NAME"], [[.text "id"]]⟩),
    (Sql.selectPage "no;tes" ["id"] 2 0, ⟨notes.columns, notes.rows⟩),
    (Sql.selectPage "no;tes" ["id"] 2 1, ⟨notes.columns, notes.rows.drop 1⟩),
    (Sql.selectPage "no;tes" ["id"] 2 2, ⟨notes.columns, []⟩)]

def notesEntries : List Scripted.Entry := notesAnswers.map fun a => ⟨a.1, none, a.2⟩

def notesWorld : Scripted.World where
  server := ⟨notesEntries, [], "MySQL", "8.0.36", [[]], []⟩
  files := ⟨[]⟩
  programs := ⟨"/bin", []⟩
  now := ⟨0, 0⟩

/-- The server still answers so, and no directory stands where the dump is to be. -/
def NotesReady (w : Scripted.World) : Prop :=
  w.server.rules = [] ∧ w.server.entries = notesEntries ∧ w.files.at? ["d.sql"] ≠ some .directory

def notesFile (w : Scripted.World) : Option (List UInt8) :=
  match w.files.at? ["d.sql"] with
  | some (.file bytes) => some bytes
  | _ => none

theorem at?_of_notesFile {w : Scripted.World} {stored : List UInt8}
    (h : notesFile w = some stored) : w.files.at? ["d.sql"] = some (.file stored) := by
  rw [notesFile] at h
  split at h
  · next hat => rw [hat, Option.some.inj h]
  · cases h

theorem notesReady_world : NotesReady notesWorld := ⟨rfl, rfl, by decide⟩

theorem lookUp_notes {sv : Scripted.Server} (h : sv.entries = notesEntries) (id : Nat)
    {sql : String} {r : QueryResult}
    (hr : (notesAnswers.find? (·.1 == sql)).map (·.2) = some r) : sv.lookUp id sql = r := by
  have hfind (current : Option String) :
      notesEntries.find? (fun e => e.sql == sql && (e.database.isNone || e.database == current)) =
        (notesAnswers.find? (·.1 == sql)).map fun a => ⟨a.1, none, a.2⟩ := by
    rw [notesEntries, List.find?_map]
    simp
  rw [Scripted.Server.lookUp, h]
  simp only [hfind, Option.map_map, Function.comp_def, hr, Option.getD_some]

/-- The server does as it is told and stays as it is. -/
theorem replies_notes {w : Scripted.World} (hw : NotesReady w) (session : Session)
    (call : Session.Call) : ∃ sv : Scripted.Server, sv.entries = notesEntries ∧
      Replies Scripted.host NotesReady notesFile w (.session session call)
        (.ok (sv.obey session.id call).1) := by
  obtain ⟨hrules, hentries, hplace⟩ := hw
  have henter (name text : String) : ∃ sv : Scripted.Server, sv.rules = [] ∧
      sv.entries = notesEntries ∧ w.server.enter session.id name text = (none, sv) := by
    simp only [Scripted.Server.enter, hrules, Scripted.Rule.first]
    refine ⟨_, ?_, ?_, rfl⟩
    · rfl
    · exact hentries
  obtain ⟨sv, hrules', hentries', hsv⟩ :=
    henter (Scripted.Server.describe call).1 (Scripted.Server.describe call).2
  have hanswer : Scripted.host.answer (.session session call) w =
      ({ reply := .ok (.ok (sv.obey session.id call).1) },
        { w with server := (sv.obey session.id call).2 }) := by
    simp only [Scripted.host, Scripted.World.answer, Scripted.Server.call, hsv]
  have hkept : (sv.obey session.id call).2.rules = sv.rules ∧
      (sv.obey session.id call).2.entries = sv.entries := by
    cases call <;> exact ⟨rfl, rfl⟩
  refine ⟨sv, hentries', ?_⟩
  rw [Replies, hanswer]
  exact ⟨rfl, ⟨hkept.1.trans hrules', hkept.2.trans hentries', hplace⟩, rfl⟩

theorem replies_notes_query {w : Scripted.World} (hw : NotesReady w) {sql : String}
    {r : QueryResult} (hr : (notesAnswers.find? (·.1 == sql)).map (·.2) = some r) :
    Replies Scripted.host NotesReady notesFile w (.session notesSession (.query sql)) (.ok r) := by
  obtain ⟨sv, hentries, hreplies⟩ := replies_notes hw notesSession (.query sql)
  have hlookUp : (sv.obey notesSession.id (.query sql)).1 = r := lookUp_notes hentries _ hr
  rwa [hlookUp] at hreplies

theorem resolve_notes (t : Scripted.Tree) : t.resolve "d.sql" = .ok ["d.sql"] := by
  have hsplit : Files.Path.split "d.sql" = ["d.sql"] := by decide
  have hlength : (encode "d.sql").length = 5 := by decide
  have habsolute : Files.Path.isAbsolute "d.sql" = false := by decide
  simp [Scripted.Tree.resolve, hsplit, hlength, habsolute, Scripted.Tree.walk,
    Scripted.Tree.at?_nil, Scripted.Tree.pathLimit, Scripted.Tree.nameLimit]

theorem stores_notes : Stores Scripted.host notesOptions.path NotesReady notesFile where
  create w hw := by
    have hcall : w.files.create "d.sql" = (.ok (), w.files.put ["d.sql"] (.file [])) := by
      rw [Scripted.Tree.create, Scripted.Tree.edit, resolve_notes]
      have hplace := hw.2.2
      cases hat : w.files.at? ["d.sql"] with
      | none => simp only [hat]
      | some entry =>
        cases entry with
        | file bytes => simp only [hat]
        | directory => exact (hplace hat).elim
    have hput := @Scripted.Tree.at?_put_self w.files ["d.sql"] (.file []) (by decide)
    simp [Scripted.host, Scripted.World.answer, Scripted.Tree.call, notesOptions, hcall, NotesReady,
      notesFile, hput, hw.1, hw.2.1]
  append w bytes stored hw hstored := by
    have hat := at?_of_notesFile hstored
    have hcall : w.files.append "d.sql" bytes =
        (.ok (), w.files.put ["d.sql"] (.file (stored ++ bytes))) := by
      rw [Scripted.Tree.append, Scripted.Tree.edit, resolve_notes]
      simp only [hat]
    have hput :=
      @Scripted.Tree.at?_put_self w.files ["d.sql"] (.file (stored ++ bytes)) (by decide)
    simp [Scripted.host, Scripted.World.answer, Scripted.Tree.call, notesOptions, hcall, NotesReady,
      notesFile, hput, hw.1, hw.2.1]
  sync w stored hw hstored := by
    have hat := at?_of_notesFile hstored
    have hopen : w.files.open? "d.sql" = .ok (.file stored) := by
      rw [Scripted.Tree.open?, resolve_notes]
      simp only [hat]
    simp only [Scripted.host, Scripted.World.answer, Scripted.Tree.call, notesOptions, hopen]
    exact ⟨rfl, hw, hstored⟩
  size w stored hw hstored := by
    have hat := at?_of_notesFile hstored
    simp [Scripted.host, Scripted.World.answer, Scripted.Tree.call, notesOptions,
      Scripted.Tree.open?, resolve_notes, hat, notesFile, Except.map, Scripted.Tree.size]

theorem servesTable_notes : ServesTable Scripted.host notesSession notesOptions.table "d" "no;tes"
    notes NotesReady notesFile where
  creation w hw :=
    ⟨⟨["Table", "Create Table"], [[.text "no;tes", .text notes.creation]]⟩, by decide,
      replies_notes_query hw (by decide +kernel)⟩
  order w hw :=
    ⟨⟨["COLUMN_NAME"], [[.text "id"]]⟩, by decide, replies_notes_query hw (by decide +kernel)⟩
  page w hw offset hoffset := by
    have hpages : ∀ offset ≤ 2,
        (notesAnswers.find? (·.1 == Sql.selectPage "no;tes" ["id"] 2 offset)).map (·.2) =
          some ⟨notes.columns, (notes.rows.drop offset).take 2⟩ := by decide +kernel
    exact replies_notes_query hw (hpages offset hoffset)

/-- An outlet into a file that was just made. -/
def notesOutlet : Outlet := ⟨"d.sql", .ofSizes 4 8, .plain "d.sql"⟩

/-- The two rows of the notes fill a page, so that an empty one follows, and each of them is
inserted by a statement of its own. -/
theorem paged_of_notes :
    ∃ (w : Scripted.World) (o' : Outlet) (batches : List (List (List Value))),
      notesOutlet.Put "d.sql" .plain NotesReady notesFile [] w ∧
        ((exportTable notesSession notesOptions.table "d" "no;tes" notesOutlet).run.run
          Scripted.host w).1.result = .ok (.ok (2, o')) ∧
        o'.Put "d.sql" .plain NotesReady notesFile
          ((Dump.structureHeading "no;tes" true ++ Piece.statement notes.creation ::
            (Dump.dataHeading "no;tes" ++ batches.map fun rows =>
              Piece.statement (Dump.insertHead "no;tes" notes.columns ++
                ",\n".intercalate (rows.map Value.rowLiteral)))).flatMap Piece.bytes)
          ((exportTable notesSession notesOptions.table "d" "no;tes" notesOutlet).run.run
            Scripted.host w).2 ∧
        batches.flatten = notes.rows ∧ ∀ batch ∈ batches, 1 ≤ batch.length ∧ batch.length ≤ 1 := by
  obtain ⟨-, hready, hcreated⟩ := stores_notes.create notesWorld notesReady_world
  have hput : notesOutlet.Put "d.sql" .plain NotesReady notesFile []
      (Scripted.host.answer (.file (.create "d.sql")) notesWorld).2 :=
    ⟨rfl, [], ⟨[], .plain [], hready, hcreated⟩, rfl⟩
  obtain ⟨o', batches, hresult, hpieces, hrows, hsizes⟩ :=
    paged_of_exportTable Scripted.host notesSession notesOptions.table "d" "no;tes" notes "d.sql"
      .plain NotesReady notesFile notesOutlet [] _ servesTable_notes stores_notes hput
  exact ⟨_, o', batches, hput, hresult, hpieces, hrows, hsizes⟩

end SqlBackup.Export
