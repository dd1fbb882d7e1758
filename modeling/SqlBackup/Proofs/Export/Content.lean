import SqlBackup.Export.Database
import SqlBackup.Proofs.Dump.Names
import SqlBackup.Proofs.Dump.Pieces

/-!
# The dump of a database

What a server holds of a database, and the pieces that a dump of it consists of. The statements
among them are closed whatever text, bytes and numbers the rows hold, and the other lines are blank
or comments.
-/
namespace SqlBackup.Export

open Dump (Piece chunks)
open Text Text.Utf8

/-- A table as a server holds it. -/
structure Table where
  /-- The statement that creates the table, in the words of the server. -/
  creation : String
  columns : List String
  /-- The columns that the rows are asked for in the order of. -/
  order : List String
  /-- The rows in this order. -/
  rows : List (List Value)
  /-- Every row has an offset that a query can name. -/
  countable : rows.length < offsetLimit

/-- What a server holds of a database, and its session variables. -/
structure Content where
  /-- The names of the tables, as they are listed. -/
  tables : List String
  table : String → Table
  /-- The values of the session variables that have one. -/
  setting? : String → Option Value

namespace Table

/-- The statements that insert the rows, page by page. -/
def inserts (t : Table) (options : TableOptions) (name : String) : List Piece :=
  (chunks (max 1 options.fetchSize) t.rows).flatMap fun rows =>
    Dump.inserts name (max 1 options.batchRows) ⟨t.columns, rows⟩

/-- The part of a dump that is about the table. -/
def pieces (t : Table) (options : TableOptions) (name : String) : List Piece :=
  Dump.structureHeading name options.dropFirst ++ .statement t.creation ::
    if options.structureOnly then [] else Dump.dataHeading name ++ t.inserts options name

/-- The statements that make the table anew. -/
def statements (t : Table) (options : TableOptions) (name : String) : List String :=
  (if options.dropFirst then [Sql.dropTable name] else []) ++ t.creation ::
    if options.structureOnly then []
    else
      (chunks (max 1 options.fetchSize) t.rows).flatMap fun page =>
        (chunks (max 1 options.batchRows) page).map fun rows =>
          Dump.insertHead name t.columns ++ ",\n".intercalate (rows.map Value.rowLiteral)

end Table

namespace Content

/-- The statements that give the session variables their values. -/
def saved (c : Content) (names : List String) : List String :=
  names.map fun name => Sql.setVariable name ((c.setting? name).elim "NULL" Value.literal)

/-- A dump of these tables, written by a session at this time. -/
def pieces (c : Content) (s : Session) (options : Options) (tables : List String)
    (now : Calendar.Instant) : List Piece :=
  Dump.provenance s.product s.version options.database now ++
    ((c.saved options.saved ++ Sql.prologue).map .statement ++
      (tables.flatMap (fun name => (c.table name).pieces options.table name) ++ Dump.ending))

/-- The statements of a dump of these tables. -/
def statements (c : Content) (options : Options) (tables : List String) : List String :=
  c.saved options.saved ++ Sql.prologue ++
    tables.flatMap (fun name => (c.table name).statements options.table name) ++ Sql.epilogue

end Content

theorem filterMap_sql_map (sqls : List String) :
    (sqls.map Piece.statement).filterMap Piece.sql? = sqls := by
  rw [List.filterMap_map]
  exact List.filterMap_some

theorem Table.filterMap_inserts (t : Table) (options : TableOptions) (name : String) :
    (t.inserts options name).filterMap Piece.sql? =
      (chunks (max 1 options.fetchSize) t.rows).flatMap fun page =>
        (chunks (max 1 options.batchRows) page).map fun rows =>
          Dump.insertHead name t.columns ++ ",\n".intercalate (rows.map Value.rowLiteral) := by
  rw [Table.inserts, List.filterMap_flatMap]
  congr 1
  funext page
  rw [Dump.inserts, ← filterMap_sql_map (List.map _ _), List.map_map]
  rfl

theorem Table.filterMap_pieces (t : Table) (options : TableOptions) (name : String) :
    (t.pieces options name).filterMap Piece.sql? = t.statements options name := by
  rw [Table.pieces, Table.statements, List.filterMap_append, ← t.filterMap_inserts]
  have hheading : (Dump.structureHeading name options.dropFirst).filterMap Piece.sql? =
      if options.dropFirst then [Sql.dropTable name] else [] := by
    unfold Dump.structureHeading
    split <;> rfl
  rw [hheading]
  congr 1
  split <;> rfl

/-- The statements of a dump are those of its pieces that are statements. -/
theorem Content.filterMap_pieces (c : Content) (s : Session) (options : Options)
    (tables : List String) (now : Calendar.Instant) :
    (c.pieces s options tables now).filterMap Piece.sql? = c.statements options tables := by
  have htables : (tables.flatMap fun name => (c.table name).pieces options.table name).filterMap
      Piece.sql? = tables.flatMap fun name => (c.table name).statements options.table name := by
    rw [List.filterMap_flatMap]
    congr 1
    funext name
    exact (c.table name).filterMap_pieces options.table name
  have hprovenance : (Dump.provenance s.product s.version options.database now).filterMap
      Piece.sql? = [] := rfl
  have hending : Dump.ending.filterMap Piece.sql? = Sql.epilogue := rfl
  rw [Content.pieces, Content.statements, List.filterMap_append, List.filterMap_append,
    List.filterMap_append, filterMap_sql_map, htables, hending, hprovenance, List.nil_append]
  simp only [List.append_assoc]

/-- A name that needs no more than backticks, and that a comment can show. -/
structure IsPlainName (name : String) : Prop where
  backslash : '\\' ∉ name.toList
  lineFeed : '\n' ∉ name.toList

theorem IsPlainName.isQuotable {name : String} (h : IsPlainName name) : Dump.IsQuotable name :=
  Dump.isQuotable_of_not_mem h.backslash

/-- A table that can be dumped: the server's statement for it is closed and is no directive, and
its exact numbers are numerals. -/
structure Table.IsPlain (t : Table) : Prop where
  closed : Dump.Closed t.creation
  notDirective : Scan.startsDirective t.creation.toList = false
  columns : ∀ name ∈ t.columns, IsPlainName name
  rows : ∀ row ∈ t.rows, ∀ value ∈ row, Dump.Encodable value

/-- A name of letters, digits, underscores and dollar signs. -/
def IsIdentifier (name : String) : Prop :=
  ∀ c ∈ name.toList, c.isAlphanum = true ∨ c = '_' ∨ c = '$'

/-- A statement is closed if its first words are calm, with another first word than a directive,
and the rest is sealed. -/
theorem isClosed_append {front rest : String} (word more : List Char)
    (hfront : front.toList = word ++ ' ' :: more) (hne : word ≠ [])
    (hword : word.all (!isBlank ·) = true)
    (hnot : Scan.sameWord word "delimiter".toList = false) (hcalm : Dump.IsCalm front)
    (hrest : Dump.Sealed rest) : (Piece.statement (front ++ rest)).IsClosed := by
  refine ⟨(hcalm.sealed.append hrest).closed, ?_⟩
  have hfirst := @head?_words [] word (' ' :: (more ++ rest.toList)) (by simp) hne
    (by simpa using hword) (by simp [isBlank])
  rw [List.nil_append] at hfirst
  rw [String.toList_append, Scan.startsDirective, hfront, List.append_assoc, List.cons_append,
    hfirst, Option.any_some, hnot]

theorem isClosed_dropTable {name : String} (h : Dump.IsQuotable name) :
    (Piece.statement (Sql.dropTable name)).IsClosed :=
  isClosed_append "DROP".toList "TABLE IF EXISTS ".toList rfl (by decide) (by decide) (by decide)
    (by decide) (Dump.sealed_quoteName h)

theorem IsIdentifier.isCalm {name : String} (h : IsIdentifier name) : Dump.IsCalm name := by
  intro c hc hmark
  have hall : ∀ c ∈ Dump.marks, ¬ (c.isAlphanum = true ∨ c = '_' ∨ c = '$') := by
    simp [Dump.marks]
  exact hall c hmark (h c hc)

theorem isClosed_setVariable {name literal : String} (hname : IsIdentifier name)
    (hliteral : Dump.Sealed literal) :
    (Piece.statement (Sql.setVariable name literal)).IsClosed := by
  have hsealed : Dump.Sealed (name ++ (" = " ++ literal)) :=
    hname.isCalm.sealed.append ((Dump.IsCalm.sealed (by decide)).append hliteral)
  have hstatement :
      Sql.setVariable name literal = "SET SESSION " ++ (name ++ (" = " ++ literal)) := by
    rw [Sql.setVariable, String.append_assoc, String.append_assoc]
  rw [hstatement]
  exact isClosed_append "SET".toList "SESSION ".toList rfl (by decide) (by decide) (by decide)
    (by decide) hsealed

theorem isClosed_insert {name : String} {columns : List String} {rows : List (List Value)}
    (hname : Dump.IsQuotable name) (hcolumns : ∀ column ∈ columns, Dump.IsQuotable column)
    (hrows : ∀ row ∈ rows, ∀ value ∈ row, Dump.Encodable value) :
    (Dump.insert name columns rows).IsClosed := by
  have hopen : Dump.Sealed " (" := Dump.IsCalm.sealed (by decide)
  have hcomma : Dump.Sealed ", " := Dump.IsCalm.sealed (by decide)
  have hclose : Dump.Sealed ")" := Dump.IsCalm.sealed (by decide)
  have hhead : Dump.Sealed " VALUES\n" := Dump.IsCalm.sealed (by decide)
  have hline : Dump.Sealed ",\n" := Dump.IsCalm.sealed (by decide)
  have hlist : Dump.Sealed (if columns.isEmpty then ""
      else " (" ++ ", ".intercalate (columns.map Sql.quoteName) ++ ")") := by
    split
    · exact Dump.sealed_empty
    · have hquoted : ∀ s ∈ columns.map Sql.quoteName, Dump.Sealed s := by
        rw [List.forall_mem_map]
        exact fun column hcolumn => Dump.sealed_quoteName (hcolumns column hcolumn)
      exact (hopen.append (Dump.sealed_intercalate hcomma hquoted)).append hclose
  have hvalues : ∀ s ∈ rows.map Value.rowLiteral, Dump.Sealed s := by
    rw [List.forall_mem_map]
    exact fun row hrow => Dump.sealed_rowLiteral (hrows row hrow)
  have hsealed := (Dump.sealed_quoteName hname).append
    (hlist.append (hhead.append (Dump.sealed_intercalate hline hvalues)))
  have hclosed := @isClosed_append "INSERT INTO " _ "INSERT".toList "INTO ".toList rfl (by decide)
    (by decide) (by decide) (by decide) hsealed
  rw [Dump.insert, Dump.insertHead]
  simpa only [String.append_assoc] using hclosed

theorem not_lineFeed_quoteName {name : String} (h : '\n' ∉ name.toList) :
    '\n' ∉ (Sql.quoteName name).toList := by
  rw [Sql.quoteName, String.toList_ofList, List.cons_append, List.mem_cons, List.mem_append,
    List.mem_flatMap, List.mem_singleton]
  rintro (hquote | ⟨c, hc, hmem⟩ | hquote)
  · exact absurd hquote (by decide)
  · unfold Sql.nameChar at hmem
    split at hmem
    · exact absurd hmem (by decide)
    · exact h (List.mem_singleton.mp hmem ▸ hc)
  · exact absurd hquote (by decide)

theorem not_lineFeed_padded (width n : Nat) : '\n' ∉ (Number.padded width n).toList :=
  fun h => absurd (Number.isDigits_padded width n _ h) (by decide)

theorem not_lineFeed_instant (i : Calendar.Instant) : '\n' ∉ (i.text "+00:00").toList := by
  have hyear : '\n' ∉ (Calendar.yearText i.date.year).toList := by
    unfold Calendar.yearText
    dsimp only
    split_ifs <;> simp [not_lineFeed_padded]
  have hdecimals : '\n' ∉ (Calendar.Instant.decimals (i.nanos % 1000000000)).toList := by
    unfold Calendar.Instant.decimals
    split_ifs <;> simp [not_lineFeed_padded]
  simp [Calendar.Instant.text, Calendar.Date.text, Calendar.Time.text, hyear, hdecimals,
    not_lineFeed_padded]

/-- Where no name has a line feed, a dump starts with lines that say nothing. -/
theorem provenance_eq {product version database : String} (created : Calendar.Instant)
    (hproduct : '\n' ∉ product.toList) (hversion : '\n' ∉ version.toList)
    (hdatabase : '\n' ∉ database.toList) :
    ∃ lines : List String, Dump.provenance product version database created =
        lines.map Piece.line ∧ ∀ line ∈ lines, line = "" ∨ Dump.IsComment line := by
  have hserver : Dump.IsComment ("-- Server: " ++ product) :=
    Dump.IsComment.append ⟨by decide, " Server: ", rfl⟩ hproduct
  refine ⟨["-- dbkit SQL dump " ++ Dump.formatVersion, "-- Server: " ++ product ++ " " ++ version,
    "-- Database: " ++ database, "-- Created: " ++ created.text "+00:00", ""], rfl, ?_⟩
  intro line hline
  simp only [List.mem_cons, List.not_mem_nil, or_false] at hline
  rcases hline with rfl | rfl | rfl | rfl | rfl
  · exact .inr ⟨by decide, " dbkit SQL dump " ++ Dump.formatVersion, rfl⟩
  · exact .inr ((hserver.append (by decide)).append hversion)
  · exact .inr (Dump.IsComment.append ⟨by decide, " Database: ", rfl⟩ hdatabase)
  · exact .inr (Dump.IsComment.append ⟨by decide, " Created: ", rfl⟩ (not_lineFeed_instant created))
  · exact .inl rfl

/-- All that is written of a table is closed. -/
theorem Table.isClosed_pieces {t : Table} (h : t.IsPlain) {name : String} (hname : IsPlainName name)
    (options : TableOptions) : ∀ piece ∈ t.pieces options name, piece.IsClosed := by
  have hblank : (Piece.line "").IsClosed := .inl rfl
  have hquoted := not_lineFeed_quoteName hname.lineFeed
  have hstructure : (Piece.line ("-- Table structure for " ++ Sql.quoteName name)).IsClosed :=
    .inr (Dump.IsComment.append ⟨by decide, " Table structure for ", rfl⟩ hquoted)
  have hdata : (Piece.line ("-- Data for " ++ Sql.quoteName name)).IsClosed :=
    .inr (Dump.IsComment.append ⟨by decide, " Data for ", rfl⟩ hquoted)
  have hcreation : (Piece.statement t.creation).IsClosed := ⟨h.closed, h.notDirective⟩
  have hinserts : ∀ piece ∈ t.inserts options name, piece.IsClosed := by
    intro piece hpiece
    rw [Table.inserts, List.mem_flatMap] at hpiece
    obtain ⟨page, hpage, hpiece⟩ := hpiece
    rw [Dump.inserts, List.mem_map] at hpiece
    obtain ⟨rows, hrows, rfl⟩ := hpiece
    refine isClosed_insert hname.isQuotable
      (fun column hcolumn => (h.columns column hcolumn).isQuotable)
      fun row hrow => h.rows row ?_
    have hmem : row ∈ page := by
      rw [← @Dump.flatten_chunks _ (max 1 options.batchRows) (by omega) page]
      exact List.mem_flatten_of_mem hrows hrow
    rw [← @Dump.flatten_chunks _ (max 1 options.fetchSize) (by omega) t.rows]
    exact List.mem_flatten_of_mem hpage hmem
  intro piece hpiece
  rw [Table.pieces, List.mem_append, List.mem_cons] at hpiece
  rcases hpiece with hpiece | rfl | hpiece
  · rw [Dump.structureHeading, List.mem_append] at hpiece
    rcases hpiece with hpiece | hpiece
    · simp only [List.mem_cons, List.not_mem_nil, or_false] at hpiece
      rcases hpiece with rfl | rfl
      · exact hblank
      · exact hstructure
    · split at hpiece
      · exact List.mem_singleton.mp hpiece ▸ isClosed_dropTable hname.isQuotable
      · cases hpiece
  · exact hcreation
  · split at hpiece
    · cases hpiece
    · rw [Dump.dataHeading, List.mem_append] at hpiece
      rcases hpiece with hpiece | hpiece
      · simp only [List.mem_cons, List.not_mem_nil, or_false] at hpiece
        rcases hpiece with rfl | rfl
        · exact hblank
        · exact hdata
      · exact hinserts piece hpiece

/-- A database of which these tables can be dumped: names, session variables and tables all have the
form that their places in a dump need. -/
structure Content.IsPlain (c : Content) (s : Session) (options : Options) (tables : List String) :
    Prop where
  product : IsPlainName s.product
  version : IsPlainName s.version
  database : IsPlainName options.database
  names : ∀ name ∈ tables, IsPlainName name
  tables : ∀ name ∈ tables, (c.table name).IsPlain
  saved : ∀ name ∈ options.saved, IsIdentifier name
  settings : ∀ name ∈ options.saved, ∀ value, c.setting? name = some value → Dump.Encodable value

theorem isClosed_provenance {s : Session} {options : Options} {c : Content} {tables : List String}
    (h : c.IsPlain s options tables) (now : Calendar.Instant) :
    ∀ piece ∈ Dump.provenance s.product s.version options.database now, piece.IsClosed := by
  obtain ⟨lines, hlines, hidle⟩ :=
    provenance_eq now h.product.lineFeed h.version.lineFeed h.database.lineFeed
  rw [hlines, List.forall_mem_map]
  exact hidle

/-- The statements around the tables do not depend on any data. -/
theorem isClosed_frame : ∀ sql ∈ Sql.prologue ++ Sql.epilogue, (Piece.statement sql).IsClosed := by
  have hall : ∀ sql ∈ Sql.prologue ++ Sql.epilogue,
      Dump.Closed sql ∧ Scan.startsDirective sql.toList = false := by decide
  exact hall

/-- All that is written of a database is closed. -/
theorem Content.isClosed_pieces {c : Content} {s : Session} {options : Options}
    {tables : List String} (h : c.IsPlain s options tables) (now : Calendar.Instant) :
    ∀ piece ∈ c.pieces s options tables now, piece.IsClosed := by
  intro piece hpiece
  rw [Content.pieces, List.mem_append, List.mem_append, List.mem_append] at hpiece
  rcases hpiece with hpiece | hpiece | hpiece | hpiece
  · exact isClosed_provenance h now piece hpiece
  · rw [List.mem_map] at hpiece
    obtain ⟨sql, hsql, rfl⟩ := hpiece
    rcases List.mem_append.mp hsql with hsaved | hprologue
    · rw [Content.saved, List.mem_map] at hsaved
      obtain ⟨name, hname, rfl⟩ := hsaved
      refine isClosed_setVariable (h.saved name hname) ?_
      cases hvalue : c.setting? name with
      | none => exact Dump.IsCalm.sealed (by decide)
      | some value => exact Dump.sealed_literal (h.settings name hname value hvalue)
    · exact isClosed_frame sql (List.mem_append_left _ hprologue)
  · rw [List.mem_flatMap] at hpiece
    obtain ⟨name, hname, hpiece⟩ := hpiece
    exact Table.isClosed_pieces (h.tables name hname) (h.names name hname) options.table piece
      hpiece
  · rw [Dump.ending, List.mem_cons, List.mem_map] at hpiece
    rcases hpiece with rfl | ⟨sql, hsql, rfl⟩
    · exact .inl rfl
    · exact isClosed_frame sql (List.mem_append_right _ hsql)

end SqlBackup.Export
