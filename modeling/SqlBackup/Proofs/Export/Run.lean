import SqlBackup.Proofs.Export.Paging

/-!
# What an export leaves

On a host whose server answers honestly and whose file takes what is written, an export succeeds
and leaves the dump of what the server holds, as it is or packed by an encoder.
-/
namespace SqlBackup.Export

open Dump (Piece)

variable {σ : Type}

/-- A host whose server answers what an export asks honestly, by what it holds of the database.
`ready` is what holds of the host once the session is in the database. -/
structure Serves (host : Host σ) (session : Session) (options : Options) (c : Content)
    (ready : σ → Prop) (file : σ → Option (List UInt8)) : Prop where
  pin : ∀ s, ready s → ∀ sql ∈ Sql.beginSnapshot,
    Replies host ready file s (.session session (.execute sql)) (.ok ())
  /-- Whether the snapshot can be let go does not matter. -/
  letGo : ∀ s, ready s → ∀ sql ∈ Sql.endSnapshot,
    ∃ reply, Replies host ready file s (.session session (.execute sql)) reply
  tables : ∀ s, ready s → ∃ r : QueryResult, r.firstColumn = c.tables ∧
    Replies host ready file s (.session session (.query (Sql.listTables options.database))) (.ok r)
  setting : ∀ s, ready s → ∀ name ∈ options.saved,
    ∃ r : QueryResult, r.cell? 0 0 = c.setting? name ∧
      Replies host ready file s (.session session (.query (Sql.readVariable name))) (.ok r)
  creation : ∀ s, ready s → ∀ name ∈ c.tables, ∃ r : QueryResult,
    r.cellText? 0 Sql.createTableColumn = some (c.table name).creation ∧
      Replies host ready file s (.session session (.query (Sql.showCreateTable name))) (.ok r)
  order : ∀ s, ready s → ∀ name ∈ c.tables,
    ∃ r : QueryResult, r.firstColumn = (c.table name).order ∧
      Replies host ready file s
        (.session session (.query (Sql.orderColumns options.database name))) (.ok r)
  page : ∀ s, ready s → ∀ name ∈ c.tables, ∀ offset ≤ (c.table name).rows.length,
    Replies host ready file s
      (.session session (.query
        (Sql.selectPage name (c.table name).order (max 1 options.table.fetchSize) offset)))
      (.ok ⟨(c.table name).columns,
        ((c.table name).rows.drop offset).take (max 1 options.table.fetchSize)⟩)
  now : ∀ s, ready s → ∃ time, Replies host ready file s .now time
  tell : ∀ s, ready s → ∀ event, Replies host ready file s (.tell event) ()

variable {host : Host σ} {session : Session} {options : Options} {c : Content} {ready : σ → Prop}
  {file : σ → Option (List UInt8)} {s : σ} {o : Outlet} {text : List UInt8} {way : Way}

/-- It answers what the export of one of the tables asks. -/
theorem Serves.table (hserver : Serves host session options c ready file) {name : String}
    (hname : name ∈ c.tables) : ServesTable host session options.table options.database name
      (c.table name) ready file where
  creation s hs := hserver.creation s hs name hname
  order s hs := hserver.order s hs name hname
  page s hs := hserver.page s hs name hname

section Server

variable (hserver : Serves host session options c ready file)
include hserver

theorem succeeds_savedVariable (hs : ready s) {name : String} (hname : name ∈ options.saved) :
    (savedVariable session name).Succeeds host s fun statement t =>
      statement = Sql.setVariable name ((c.setting? name).elim "NULL" Value.literal) ∧
        Same ready file s t := by
  obtain ⟨r, hr, hreply⟩ := hserver.setting s hs name hname
  rw [savedVariable]
  refine (succeeds_replies hreply).bind ?_
  rintro _ t ⟨rfl, ht⟩
  exact Work.succeeds_pure ⟨by rw [hr], ht⟩

theorem succeeds_savedVariables (hs : ready s) {names : List String}
    (hnames : ∀ name ∈ names, name ∈ options.saved) :
    (savedVariables session names).Succeeds host s fun statements t =>
      statements = c.saved names ∧ Same ready file s t := by
  induction names generalizing s with
  | nil => exact Work.succeeds_pure ⟨rfl, hs, rfl⟩
  | cons name names ih =>
    rw [List.forall_mem_cons] at hnames
    rw [savedVariables]
    refine (succeeds_savedVariable hserver hs hnames.1).bind ?_
    rintro _ t ⟨rfl, ht⟩
    refine (ih ht.1 hnames.2).bind ?_
    rintro _ t' ⟨rfl, ht'⟩
    exact Work.succeeds_pure ⟨rfl, ht'.1, ht'.2.trans ht.2⟩

end Server

/-- The text of an export gets into its file in this way, and no program has part in it. -/
inductive Options.Inside (options : Options) : Way → Prop
  | plain (h : options.compression = .none) : Inside options .plain
  | gzip (h : options.compression = .gzip) (hexternal : options.external = false) :
      Inside options (.packed options.encoders.gzip)
  | zstd (h : options.compression = .zstd) (hexternal : options.external = false) :
      Inside options (.packed options.encoders.zstd)

theorem Options.Inside.ne_piped (h : options.Inside way) (program : String)
    (child : Nat) : way ≠ .piped program child := by
  cases h <;> nofun

theorem succeeds_openOutlet (hfile : Stores host options.path ready file) (hs : ready s)
    (hway : options.Inside way) :
    (openOutlet options).Succeeds host s fun o t => o.Put options.path way ready file [] t := by
  obtain ⟨hreply, hready, hcreated⟩ := hfile.create s hs
  have hcreate : (Work.onPath options.path (Job.file (.create options.path))).Succeeds host s
      fun _ t => Keeps ready file [] t :=
    Work.succeeds_ofExcept (Job.ends_request hreply ⟨(), rfl, hready, hcreated⟩)
  rw [openOutlet]
  refine hcreate.bind fun _ t ht => ?_
  cases hway with
  | plain h =>
    rw [h]
    exact Work.succeeds_pure ⟨rfl, [], ⟨[], .plain [], ht⟩, rfl⟩
  | gzip h hexternal =>
    rw [h, hexternal]
    exact Work.succeeds_pure ⟨rfl, [], ⟨[], .packed _ [] (by simp), ht⟩, rfl⟩
  | zstd h hexternal =>
    rw [h, hexternal]
    exact Work.succeeds_pure ⟨rfl, [], ⟨[], .packed _ [] (by simp), ht⟩, rfl⟩

/-- The file holds what the dump of these tables has come to on its way. -/
def Leaves (session : Session) (options : Options) (c : Content) (tables : List String) (way : Way)
    (ready : σ → Prop) (file : σ → Option (List UInt8)) (s : σ) : Prop :=
  ∃ now stored, Completed way ((c.pieces session options tables now).flatMap Piece.bytes) stored ∧
    Keeps ready file stored s

section Run

variable (hserver : Serves host session options c ready file)
  (hfile : Stores host options.path ready file)
include hserver hfile

theorem succeeds_exportTables {tables : List String} (htables : ∀ name ∈ tables, name ∈ c.tables)
    (total index : Nat) (h : o.Put options.path way ready file text s) :
    (exportTables session options total index tables o).Succeeds host s fun r t =>
      r.2.Put options.path way ready file
        (text ++ (tables.flatMap fun name =>
          (c.table name).pieces options.table name).flatMap Piece.bytes) t := by
  induction tables generalizing index o text s with
  | nil =>
    rw [List.flatMap_nil, List.flatMap_nil, List.append_nil]
    exact Work.succeeds_pure h
  | cons name tables ih =>
    rw [List.forall_mem_cons] at htables
    rw [exportTables, List.flatMap_cons, List.flatMap_append, ← List.append_assoc]
    refine (succeeds_exportTable (hserver.table htables.1) hfile h).bind ?_
    rintro ⟨rows, o₁⟩ s₁ ⟨-, h₁⟩
    have htell := hserver.tell s₁ h₁.isReady (.table options.database name index total rows)
    have htold : (Work.tell (.table options.database name index total rows)).Succeeds host s₁
        fun _ t => Same ready file s₁ t :=
      Work.succeeds_ofJob (Job.ends_request htell.1 htell.2)
    refine htold.bind fun _ s₂ hs₂ => ?_
    refine (ih htables.2 (index + 1) (h₁.of_keeps hs₂.1 hs₂.2)).bind fun r s₃ h₃ => ?_
    exact Work.succeeds_pure h₃

/-- The dump of the chosen tables is written. -/
theorem succeeds_writeDump (hs : ready s) (hway : options.Inside way)
    {tables : List String} (htables : ∀ name ∈ tables, name ∈ c.tables)
    (hselect : (TableFilter.ofPatterns options.tables options.exclude).bind
      (TableFilter.select · c.tables) = .ok tables) :
    (writeDump session options).Succeeds host s fun _ t =>
      Leaves session options c tables way ready file t := by
  obtain ⟨filter, hfilter, hselected⟩ : ∃ filter,
      TableFilter.ofPatterns options.tables options.exclude = .ok filter ∧
        filter.select c.tables = .ok tables := by
    cases hfilter : TableFilter.ofPatterns options.tables options.exclude with
    | error fault =>
      rw [hfilter] at hselect
      cases hselect
    | ok filter => exact ⟨filter, rfl, by rwa [hfilter] at hselect⟩
  rw [writeDump]
  obtain ⟨r, hr, hlisted⟩ := hserver.tables s hs
  refine (succeeds_replies hlisted).bind ?_
  rintro _ s₁ ⟨rfl, hs₁, -⟩
  rw [hfilter, Work.ofResult_bind, hr, hselected, Work.ofResult_bind]
  refine (succeeds_savedVariables hserver hs₁ fun _ hname => hname).bind ?_
  rintro _ s₂ ⟨rfl, hs₂, -⟩
  refine (succeeds_openOutlet hfile hs₂ hway).bind fun o₃ s₃ h₃ => ?_
  obtain ⟨now, hnow⟩ := hserver.now s₃ h₃.isReady
  have htime : (Work.ofJob (.request .now)).Succeeds host s₃ fun time t =>
      time = now ∧ Same ready file s₃ t :=
    Work.succeeds_ofJob (Job.ends_request hnow.1 ⟨rfl, hnow.2⟩)
  refine htime.bind ?_
  rintro time s₄ ⟨rfl, hs₄⟩
  refine (Outlet.succeeds_putAll hfile (h₃.of_keeps hs₄.1 hs₄.2) _).bind fun o₅ s₅ h₅ => ?_
  refine (Outlet.succeeds_putAll hfile h₅ _).bind fun o₆ s₆ h₆ => ?_
  refine (succeeds_exportTables hserver hfile htables tables.length 1 h₆).bind fun r s₇ h₇ => ?_
  refine (Outlet.succeeds_putAll hfile h₇ _).bind fun o₈ s₈ h₈ => ?_
  refine (Outlet.succeeds_finish hfile h₈ hway.ne_piped).bind ?_
  rintro _ s₉ ⟨stored, hstored, hs₉⟩
  refine Work.succeeds_pure ⟨time, stored, ?_, hs₉⟩
  rw [Content.pieces]
  simpa only [List.flatMap_append, List.append_assoc, List.nil_append] using hstored

end Run

theorem ends_attemptAll {sqls : List String}
    (h : ∀ s, ready s → ∀ sql ∈ sqls,
      ∃ reply, Replies host ready file s (.session session (.execute sql)) reply)
    (hs : ready s) : (attemptAll session sqls).Ends host s fun _ t => Same ready file s t := by
  induction sqls generalizing s with
  | nil => exact ⟨hs, rfl⟩
  | cons sql sqls ih =>
    obtain ⟨reply, hreply, ht⟩ := h s hs sql List.mem_cons_self
    refine ⟨reply, hreply, ?_⟩
    refine (ih (fun s hs sql hsql => h s hs sql (List.mem_cons_of_mem _ hsql)) ht.1).mono ?_
    exact fun _ t' ht' => ⟨ht'.1, ht'.2.trans ht.2⟩

theorem succeeds_executeAll {sqls : List String}
    (h : ∀ s, ready s → ∀ sql ∈ sqls,
      Replies host ready file s (.session session (.execute sql)) (.ok ()))
    (hs : ready s) : (executeAll session sqls).Succeeds host s fun _ t => Same ready file s t := by
  induction sqls generalizing s with
  | nil => exact Work.succeeds_pure ⟨hs, rfl⟩
  | cons sql sqls ih =>
    rw [executeAll]
    refine (succeeds_replies (h s hs sql List.mem_cons_self)).bind ?_
    rintro _ t ⟨-, ht⟩
    refine (ih (fun s hs sql hsql => h s hs sql (List.mem_cons_of_mem _ hsql)) ht.1).mono ?_
    exact fun _ t' ht' => ⟨ht'.1, ht'.2.trans ht.2⟩

section Run

variable (hserver : Serves host session options c ready file)
  (hfile : Stores host options.path ready file)
  (huse : Replies host ready file s (.session session (.useDatabase options.database)) (.ok ()))
  (hway : options.Inside way) {tables : List String}
  (htables : ∀ name ∈ tables, name ∈ c.tables)
  (hselect : (TableFilter.ofPatterns options.tables options.exclude).bind
    (TableFilter.select · c.tables) = .ok tables)
include hserver hfile huse hway htables hselect

theorem succeeds_writeConsistently :
    (writeConsistently session options).Succeeds host s fun _ t =>
      Leaves session options c tables way ready file t := by
  rw [writeConsistently]
  refine (succeeds_replies huse).bind ?_
  rintro _ s₁ ⟨-, hs₁, -⟩
  split
  · refine (succeeds_executeAll hserver.pin hs₁).bind fun _ s₂ hs₂ => ?_
    have hdump : (writeDump session options).outcome.Succeeds host s₂ fun result t =>
        (∃ stats, result = .ok stats) ∧ Leaves session options c tables way ready file t :=
      Work.succeeds_outcome ((succeeds_writeDump hserver hfile hs₂.1 hway htables hselect).mono
        fun stats t ht => ⟨⟨stats, rfl⟩, ht⟩)
    refine hdump.bind ?_
    rintro _ s₃ ⟨⟨stats, rfl⟩, now, stored, hstored, hs₃⟩
    refine (Work.succeeds_ofJob (ends_attemptAll hserver.letGo hs₃.1)).bind fun _ s₄ hs₄ => ?_
    exact Work.succeeds_ofResult rfl ⟨now, stored, hstored, hs₄.1, hs₄.2.trans hs₃.2⟩
  · exact succeeds_writeDump hserver hfile hs₁ hway htables hselect

/-- An export succeeds and leaves the dump of what the server holds. -/
theorem succeeds_database :
    (database session options).Succeeds host s fun _ t => ∃ now stored,
      Completed way ((c.pieces session options tables now).flatMap Piece.bytes) stored ∧
        file t = some stored := by
  have hdump : (writeConsistently session options).outcome.Succeeds host s fun result t =>
      (∃ stats, result = .ok stats) ∧ Leaves session options c tables way ready file t :=
    Work.succeeds_outcome
      ((succeeds_writeConsistently hserver hfile huse hway htables hselect).mono
        fun stats t ht => ⟨⟨stats, rfl⟩, ht⟩)
  rw [database]
  refine hdump.bind ?_
  rintro _ s₁ ⟨⟨stats, rfl⟩, now, stored, hstored, hs₁⟩
  obtain ⟨hreply, hfinal⟩ := hfile.size s₁ _ hs₁.1 hs₁.2
  have hsize : (Work.onPath options.path (Job.file (.size options.path))).Succeeds host s₁
      fun _ t => file t = some stored :=
    Work.succeeds_ofExcept (Job.ends_request hreply ⟨_, rfl, hfinal⟩)
  refine hsize.bind fun _ s₂ hs₂ => ?_
  exact Work.succeeds_pure ⟨now, stored, hstored, hs₂⟩

end Run

end SqlBackup.Export
