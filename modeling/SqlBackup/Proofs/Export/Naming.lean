import SqlBackup.Proofs.Export.Content

/-!
# Names in a dump

A dump has its names in comments as they are. As long as there is no line feed in them, the lines
for a reader add nothing to what a scanner says of the dump. A line feed ends the comment: the rest
of the name is scanned, and if it spells a statement, a load executes that.

A statement that drops, creates or fills a table ends at its own semicolon, whatever its table and
columns are called, as long as backticks can hold the names.
-/
namespace SqlBackup.Export

open Scan Text Text.Utf8
open Dump (Piece IsComment)

variable {settings : Settings}

/-- The comment above a table, where its name has no line feed. -/
theorem heading_eq {table : String} (htable : '\n' ∉ table.toList) {heading : List Piece}
    (h : heading ∈ [Dump.structureHeading table false, Dump.dataHeading table, [.line ""]]) :
    ∃ lines : List String, heading = lines.map Piece.line ∧
      ∀ line ∈ lines, line = "" ∨ IsComment line := by
  have hquoted := not_lineFeed_quoteName htable
  have hpair {text : String} (htext : IsComment text) :
      ∀ line ∈ ["", text], line = "" ∨ IsComment line := by
    intro line hline
    rcases List.mem_pair.mp hline with rfl | rfl
    · exact .inl rfl
    · exact .inr htext
  simp only [List.mem_cons, List.not_mem_nil, or_false] at h
  rcases h with rfl | rfl | rfl
  · exact ⟨["", "-- Table structure for " ++ Sql.quoteName table], rfl,
      hpair (IsComment.append ⟨by decide, " Table structure for ", rfl⟩ hquoted)⟩
  · exact ⟨["", "-- Data for " ++ Sql.quoteName table], rfl,
      hpair (IsComment.append ⟨by decide, " Data for ", rfl⟩ hquoted)⟩
  · exact ⟨[""], rfl, fun line hline => .inl (List.mem_singleton.mp hline)⟩

/-- Where no name has a line feed, the lines for a reader can be left out of a dump: the texts of
the statements and the delimiters are those of the dump without them. This holds of the lines at its
start whatever follows, and of those above a table and its rows wherever a scanner stands at the
start of a line, in code and with no text pending. -/
theorem said_without_comments (settings : Settings) (product version database table : String)
    (created : Calendar.Instant) (hproduct : '\n' ∉ product.toList)
    (hversion : '\n' ∉ version.toList) (hdatabase : '\n' ∉ database.toList)
    (htable : '\n' ∉ table.toList) :
    (∀ rest, (Scanner.ofSource ⟨(Dump.provenance product version database created).flatMap
          Piece.bytes ++ rest, none⟩ settings).results.map Result.said =
        (Scanner.ofSource ⟨rest, none⟩ settings).results.map Result.said) ∧
      ∀ heading ∈ [Dump.structureHeading table false, Dump.dataHeading table, [.line ""]],
        ∀ (d : Delimiter) (position start : Nat) (rest : List UInt8), (∃ b ∈ d.bytes, b ≠ 0x2D) →
        ((State.free d position start).transcript settings.inEffect true
            (heading.flatMap Piece.bytes ++ rest)).map Result.said =
          ((State.free d position start).transcript settings.inEffect true rest).map
            Result.said := by
  have hlimit : 0 < settings.inEffect.limit := lt_of_lt_of_le Nat.one_pos (le_max_left _ _)
  have hlines {lines : List String} (h : ∀ line ∈ lines, line = "" ∨ IsComment line)
      {d : Delimiter} (hd : ∃ b ∈ d.bytes, b ≠ 0x2D) (position start : Nat) (rest : List UInt8) :
      ((State.free d position start).transcript settings.inEffect true
          ((lines.map Piece.line).flatMap Piece.bytes ++ rest)).map Result.said =
        ((State.free d position start).transcript settings.inEffect true rest).map
          Result.said := by
    rw [Dump.transcript_lines h hd hlimit]
    exact State.said_placed settings.inEffect (.free d position start) true rest _ start
  constructor
  · intro rest
    obtain ⟨lines, hsame, hidle⟩ := provenance_eq created hproduct hversion hdatabase
    rw [Scanner.results_ofSource, Scanner.results_ofSource, hsame]
    exact hlines hidle exists_ne_dash_semicolon 0 0 rest
  · intro heading hheading d position start rest hd
    obtain ⟨lines, rfl, hidle⟩ := heading_eq htable hheading
    exact hlines hidle hd position start rest

/-- The lines of a dump of a table named after a quote and a semicolon. -/
theorem said_without_quote :
    '\n' ∉ "a'; DROP TABLE b; --".toList ∧
    (∀ rest, (Scanner.ofSource ⟨(Dump.provenance "mysql" "8.0.36" "a'; DROP TABLE b; --"
          ⟨0, 0⟩).flatMap Piece.bytes ++ rest, none⟩ {}).results.map Result.said =
        (Scanner.ofSource ⟨rest, none⟩ {}).results.map Result.said) ∧
      ∀ heading ∈ [Dump.structureHeading "a'; DROP TABLE b; --" false,
          Dump.dataHeading "a'; DROP TABLE b; --", [.line ""]],
        ∀ (d : Delimiter) (position start : Nat) (rest : List UInt8), (∃ b ∈ d.bytes, b ≠ 0x2D) →
        ((State.free d position start).transcript (Settings.inEffect {}) true
            (heading.flatMap Piece.bytes ++ rest)).map Result.said =
          ((State.free d position start).transcript (Settings.inEffect {}) true rest).map
            Result.said :=
  ⟨by decide, said_without_comments {} "mysql" "8.0.36" "a'; DROP TABLE b; --"
    "a'; DROP TABLE b; --" ⟨0, 0⟩ (by decide) (by decide) (by decide) (by decide)⟩

/-- A statement behind a line feed in the name of a database is a statement of the dump. -/
theorem sql_results_of_lineFeed {product version database sql : String} (created : Calendar.Instant)
    (hproduct : '\n' ∉ product.toList) (hversion : '\n' ∉ version.toList)
    (hdatabase : '\n' ∉ database.toList) (hclosed : Dump.Closed sql)
    (hdirective : startsDirective sql.toList = false)
    (hlimit : (encode sql).length < settings.limit) :
    (Scanner.ofSource ⟨(Dump.provenance product version (database ++ "\n" ++ sql ++ ";")
        created).flatMap Piece.bytes, none⟩ settings).results.map Result.sql? =
      ([trim sql].filter (!·.isEmpty)).map (fun sql => .ok (some sql)) ++ [.ok none] := by
  obtain ⟨lines, hlines, hidle⟩ := provenance_eq created hproduct hversion hdatabase
  have hlines' : ∀ piece ∈ Dump.provenance product version database created, piece.IsClosed := by
    rw [hlines, List.forall_mem_map]
    exact hidle
  -- What stands behind the line feed is a piece of its own.
  let pieces : List Piece := (Dump.provenance product version database created).take 3 ++
    .statement sql :: (Dump.provenance product version database created).drop 3
  have hbytes : (Dump.provenance product version (database ++ "\n" ++ sql ++ ";") created).flatMap
      Piece.bytes = pieces.flatMap Piece.bytes := by
    have hend : encode ";\n" = encode ";" ++ encode "\n" := by decide
    simp [pieces, Dump.provenance, Piece.bytes, Piece.text, encode_append, hend]
  have hclosed : ∀ piece ∈ pieces, piece.IsClosed := by
    intro piece hpiece
    rcases List.mem_append.mp hpiece with hfront | hback
    · exact hlines' piece (List.mem_of_mem_take hfront)
    rcases List.mem_cons.mp hback with rfl | hback
    · exact ⟨hclosed, hdirective⟩
    · exact hlines' piece (List.mem_of_mem_drop hback)
  have hsql : pieces.filterMap Piece.sql? = [sql] := rfl
  rw [hbytes, Dump.sql_results_of_pieces hclosed settings (by simpa [hsql] using hlimit), hsql]
  rfl

/-- The name of a database drops another one. -/
theorem sql_results_of_intruder :
    (Scanner.ofSource ⟨(Dump.provenance "mysql" "8.0.36" "x\nDROP DATABASE prod;"
        ⟨0, 0⟩).flatMap Piece.bytes, none⟩ {}).results.map Result.sql? =
      [.ok (some "DROP DATABASE prod"), .ok none] := by
  have hname : "x\nDROP DATABASE prod;" = "x" ++ "\n" ++ "DROP DATABASE prod" ++ ";" := by decide
  rw [hname]
  exact sql_results_of_lineFeed ⟨0, 0⟩ (by decide) (by decide) (by decide) (by decide) (by decide)
    (by decide)

end SqlBackup.Export

namespace SqlBackup.Export

open Dump (IsQuotable Sealed)
open Scan Text Text.Utf8

/-- A part of a statement: a name, or text between names. -/
inductive Part where
  | name (name : String)
  | text (text : String)

namespace Part

def sql : Part → String
  | .name n => Sql.quoteName n
  | .text t => t

/-- A name that backticks can hold, or text that leaves all behind it as it is. -/
def IsWhole : Part → Prop
  | .name n => IsQuotable n
  | .text t => Sealed t

theorem IsWhole.sealed {part : Part} (h : part.IsWhole) : Sealed part.sql := by
  cases part with
  | name n => exact Dump.sealed_quoteName h
  | text t => exact h

end Part

/-- The statement that creates a table, with the names of columns anywhere in its definition. -/
def createTable (table : String) (definition : List Part) : String :=
  "CREATE TABLE " ++ (Sql.quoteName table ++ "".intercalate (definition.map Part.sql))

/-- The statements that drop, create and fill a table whose names backticks can hold. -/
inductive Naming : String → Prop
  | drop {table : String} (htable : IsQuotable table) : Naming (Sql.dropTable table)
  | create {table : String} {definition : List Part} (htable : IsQuotable table)
      (hdefinition : ∀ part ∈ definition, part.IsWhole) : Naming (createTable table definition)
  | insert {table : String} {columns : List String} {rows : List (List Value)}
      (htable : IsQuotable table) (hcolumns : ∀ column ∈ columns, IsQuotable column)
      (hrows : ∀ row ∈ rows, ∀ value ∈ row, Dump.Encodable value) :
      Naming (Dump.insertHead table columns ++ ",\n".intercalate (rows.map Value.rowLiteral))

theorem closed_createTable {table : String} {definition : List Part} (htable : IsQuotable table)
    (hdefinition : ∀ part ∈ definition, part.IsWhole) :
    Dump.Closed (createTable table definition) := by
  have hparts : ∀ sql ∈ definition.map Part.sql, Sealed sql := by
    rw [List.forall_mem_map]
    exact fun part hpart => (hdefinition part hpart).sealed
  have hfront : Sealed "CREATE TABLE " := Dump.IsCalm.sealed (by decide)
  exact (hfront.append ((Dump.sealed_quoteName htable).append
    (Dump.sealed_intercalate Dump.sealed_empty hparts))).closed

theorem Naming.closed {sql : String} (h : Naming sql) : Dump.Closed sql := by
  cases h with
  | drop htable => exact (isClosed_dropTable htable).1
  | create htable hdefinition => exact closed_createTable htable hdefinition
  | insert htable hcolumns hrows => exact (isClosed_insert htable hcolumns hrows).1

theorem toList_append_cons {front : String} {c : Char} {cs : List Char}
    (h : front.toList = c :: cs) (rest : String) :
    (front ++ rest).toList = c :: (cs ++ rest.toList) := by
  rw [String.toList_append, h, List.cons_append]

/-- Such a statement starts with its keyword. -/
theorem Naming.toList_eq {sql : String} (h : Naming sql) :
    ∃ c cs, sql.toList = c :: cs ∧ isBlank c = false := by
  cases h with
  | drop htable => exact ⟨'D', _, toList_append_cons rfl _, by decide⟩
  | create htable hdefinition => exact ⟨'C', _, toList_append_cons rfl _, by decide⟩
  | insert htable hcolumns hrows =>
    simp only [Dump.insertHead, String.append_assoc]
    exact ⟨'I', _, toList_append_cons rfl _, by decide⟩

/-- A scanner in code reads a name in backticks from code to code and keeps every byte of it,
exactly if the name is quotable, and on the way it ends no statement and stands in no comment,
whatever the delimiter. So a statement that drops, creates or fills a table ends at the semicolon
behind it, and nowhere before. -/
theorem scan_naming (limit : Nat) :
    (∀ (name : String) (s : State), s.mode = .code →
      s.size + (encode (Sql.quoteName name)).length ≤ limit →
      (s.scan limit (encode (Sql.quoteName name)) =
        (s.holding (encode (Sql.quoteName name)) .code, [], none) ↔ IsQuotable name) ∧
      (IsQuotable name → ∀ front back, front ++ back = encode (Sql.quoteName name) →
        ∃ mode, s.scan limit front = (s.holding front mode, [], none) ∧
          (mode = .quoted 0x60 ∨ mode = .escaped 0x60 ∨
            mode = .code ∧ (front = [] ∨ back = [] ∨ back.head? = some 0x60)))) ∧
    ∀ (sql : String) (position start : Nat) (rest : List UInt8), Naming sql →
      (encode sql).length < limit →
      (State.free semicolon position start).scan limit (encode sql ++ 0x3B :: rest) =
        (.initial (position + (encode sql).length + 1) semicolon, rest,
          some (.ok ⟨trim sql, position + (encode sql).length + 1 - start,
            position + (encode sql).length + 1⟩)) := by
  constructor
  · intro name s hcode hroom
    exact ⟨Dump.scan_quoteName_iff hcode hroom,
      fun h _ _ hsplit => Dump.scan_front_of_quoteName h hcode hroom hsplit⟩
  · intro sql position start rest hnaming hroom
    obtain ⟨c, cs, hsql, hc⟩ := hnaming.toList_eq
    exact State.scan_statement hnaming.closed hsql hc hroom position start rest

/-- A backtick in a name does no harm, nor does a backslash in front of another letter. -/
theorem scan_naming_of_backtick :
    IsQuotable "a`b\\c" ∧
    (State.initial 0 semicolon).scan 100 (encode (Sql.quoteName "a`b\\c")) =
      ((State.initial 0 semicolon).holding (encode (Sql.quoteName "a`b\\c")) .code, [], none) ∧
    Naming (Sql.dropTable "a`b\\c") ∧
    (State.free semicolon 0 0).scan 100 (encode (Sql.dropTable "a`b\\c") ++ 0x3B :: [0x0A]) =
      (.initial 30 semicolon, [0x0A],
        some (.ok ⟨trim (Sql.dropTable "a`b\\c"), 30, 30⟩)) := by
  have hquotable : IsQuotable "a`b\\c" := by decide
  have hname := (scan_naming 100).1 "a`b\\c" (.initial 0 semicolon) rfl (by decide)
  have hlength : (encode (Sql.dropTable "a`b\\c")).length = 29 := by decide
  have hdrop := (scan_naming 100).2 _ 0 0 [0x0A] (.drop hquotable) (by rw [hlength]; decide)
  rw [hlength] at hdrop
  exact ⟨hquotable, hname.1.mpr hquotable, .drop hquotable, hdrop⟩

/-- Behind a name that ends with a backslash a scanner is still inside of it, so that a statement
with this name does not end at its semicolon, nor does the one behind it. -/
theorem scan_naming_of_backslash :
    ((State.initial 0 semicolon).scan 100 (encode (Sql.quoteName "a\\"))).1.mode = .quoted 0x60 ∧
    ((State.initial 0 semicolon).scan 100 (encode
      (Sql.dropTable "a\\" ++ ";\n" ++ Sql.dropTable "b" ++ ";\n"))).2 = ([], none) := by
  decide +kernel

end SqlBackup.Export
