import SqlBackup.Proofs.Load.Rename
import SqlBackup.Proofs.Load.Whole

/-!
# A load under another name

A load into another database than the one that its dump was taken from leaves out the statements
that the rename passes over, and no others.
-/
namespace SqlBackup.Load

open Rename (names standsAlone Resembles IsKeywords)

variable {σ : Type} {host : Host σ} {session : Session} {options : Options} {s s' : σ}
  {talk : List Exchange} {name : String}

/-- Under a rename, a statement is handed on exactly if it is not recognised. -/
theorem keeps_of_rename (hrename : options.renameFrom = some name)
    (hother : name ≠ options.database) (totalBytes : Option Nat) :
    (options.course session totalBytes).keeps = fun statement => !names name statement.sql := by
  have hne : (name != options.database) = true := bne_iff_ne.mpr hother
  funext statement
  simp only [Course.keeps, Course.drops, Options.course, hrename, Option.any_some, hne,
    Bool.true_and]

/-- Only statements that are handed on are executed. -/
theorem keeps_of_executed {c : Course} {statements : List Statement}
    {outcome : Except Fault Stats} {blocks : List Block}
    (h : Accounted c statements talk outcome blocks) {sql : String}
    (hsql : sql ∈ talk.filterMap Exchange.inside?) :
    ∃ statement ∈ statements, c.keeps statement = true ∧ statement.sql = sql := by
  rw [h.executed, List.mem_map] at hsql
  obtain ⟨statement, hhanded, rfl⟩ := hsql
  obtain ⟨reached, beyond, -, hreached, -⟩ := h.reached
  have hentered := (handed_sublist blocks).subset hhanded
  rw [← hreached] at hentered
  exact ⟨statement, h.once.subset hhanded, (List.mem_filter.mp hentered).2, rfl⟩

/-- A load under a rename executes nothing that the rename recognises. -/
theorem not_names_of_executed (hrename : options.renameFrom = some name)
    (hother : name ≠ options.database)
    (hplain : ∀ format talk t, (Dump.detect options.path options.compression).run.Dialogue host s
      talk (.ok format) t → format.kind = .plain)
    {result : Except Fault Stats} (h : (dump session options).run.Dialogue host s talk result s') :
    ∀ sql ∈ talk.filterMap Exchange.inside?, names name sql = false := by
  intro sql hsql
  by_cases hopens : ∃ opened, Opens host session options s opened
  · obtain ⟨opened, hopened⟩ := hopens
    obtain ⟨outcome, refusal, blocks, -, hloaded⟩ := loaded_of_opens hplain h hopened
    obtain ⟨statement, -, hkeeps, rfl⟩ := keeps_of_executed hloaded.accounted hsql
    rw [keeps_of_rename hrename hother] at hkeeps
    simpa using hkeeps
  · rw [not_exists] at hopens
    rw [← inside_transacted, (silent_of_not_opens hplain h hopens).1] at hsql
    cases hsql

/-- Which statements a rename passes over. Of the database that it is from they are those that
create or use it, alone or with options behind a blank, unless its name has a backtick. Of others
they are those whose name resembles it, or stands behind keywords that do. A load under the rename
executes no statement that it passes over, and if nothing fails, all others. -/
theorem passedOver_of_rename (name : String) (hne : name ≠ "") :
    (∀ tail : String, standsAlone tail.toList = true →
      (names name (Sql.useDatabase name ++ tail) = true ↔ '\x60' ∉ name.toList) ∧
      ('\x60' ∉ name.toList → names name (Sql.createDatabase name ++ tail) = true)) ∧
    ('\x60' ∉ name.toList → ∀ other tail : String, standsAlone tail.toList = true →
      (names name (Sql.useDatabase other ++ tail) = true ↔
        Resembles name.toList other.toList) ∧
      (names name (Sql.createDatabase other ++ tail) = true ↔
        Resembles name.toList other.toList ∨ IsKeywords name.toList other.toList)) ∧
    ∀ (σ : Type) (host : Host σ) (session : Session) (options : Options) (s : σ),
      options.renameFrom = some name → name ≠ options.database →
      (∀ format talk t, (Dump.detect options.path options.compression).run.Dialogue host s talk
        (.ok format) t → format.kind = .plain) →
      ∀ result, ((dump session options).run.run host s).1.result = .ok result →
        ∃ talk s', (dump session options).run.Dialogue host s talk result s' ∧
          (∀ sql ∈ talk.filterMap Exchange.inside?, names name sql = false) ∧
          ∀ stats, result = .ok stats → stats.errors = [] →
            ∃ opened, Opens host session options s opened ∧
              talk.filterMap Exchange.inside? =
                ((options.scanner opened.2.2).statements.filter
                  fun statement => !names name statement.sql).map (·.sql) := by
  have hothers : '\x60' ∉ name.toList → ∀ other tail : String, standsAlone tail.toList = true →
      (names name (Sql.useDatabase other ++ tail) = true ↔
        Resembles name.toList other.toList) ∧
      (names name (Sql.createDatabase other ++ tail) = true ↔
        Resembles name.toList other.toList ∨ IsKeywords name.toList other.toList) := by
    intro hname other tail htail
    have hquoted := @Rename.any_quotedName_nameChars name other.toList tail.toList hne hname htail
    rw [Rename.names_useDatabase, Rename.names_createDatabase, Bool.or_eq_true, or_comm]
    exact ⟨hquoted, or_congr hquoted (Rename.any_quotedName_keywords hname)⟩
  have hself : Resembles name.toList name.toList :=
    ⟨name.toList, [], (List.append_nil _).symm, Text.sameLetters_refl _, rfl⟩
  refine ⟨fun tail htail => ⟨⟨Rename.backtick_not_mem_of_names, fun hname => ?_⟩, fun hname => ?_⟩,
    hothers, ?_⟩
  · exact (hothers hname name tail htail).1.mpr hself
  · exact (hothers hname name tail htail).2.mpr (.inl hself)
  · intro σ host session options s hrename hother hplain result h
    obtain ⟨talk, htalk⟩ := Job.exists_dialogue h
    refine ⟨talk, _, htalk, not_names_of_executed hrename hother hplain htalk, ?_⟩
    rintro stats rfl hnone
    obtain ⟨format, totalBytes, source, hopened, htexts, -⟩ :=
      executed_of_noFault htalk hplain hnone
    rw [keeps_of_rename hrename hother] at htexts
    exact ⟨_, hopened, htexts⟩

/-! ### A dump that uses its own database and another -/

def moved : Scripted.World :=
  { (default : Scripted.World) with
    files := ⟨[(["dump.sql"], .file (Text.Utf8.encode "USE `shop`;USE `stock`;SELECT 1;"))]⟩ }

def movedOptions : Options :=
  { path := "dump.sql", database := "copy", renameFrom := some "shop", compression := some .none }

/-- The statement that uses the database of origin is left out, and the others are executed. -/
theorem passedOver_of_moved :
    names "shop" (Sql.createDatabase "shop" ++ " CHARACTER SET utf8mb4") = true ∧
    (names "shop" (Sql.useDatabase "stock" ++ "") = true ↔
      Resembles "shop".toList "stock".toList) ∧
    ∃ stats talk s', (dump default movedOptions).run.Dialogue Scripted.host moved talk (.ok stats)
        s' ∧ stats.executed = 2 ∧
      (∀ sql ∈ talk.filterMap Exchange.inside?, names "shop" sql = false) ∧
      ∃ opened, Opens Scripted.host default movedOptions moved opened ∧
        talk.filterMap Exchange.inside? =
          ((movedOptions.scanner opened.2.2).statements.filter
            fun statement => !names "shop" statement.sql).map (·.sql) := by
  have hplain : ∀ format talk t, (Dump.detect movedOptions.path
      movedOptions.compression).run.Dialogue Scripted.host moved talk (.ok format) t →
      format.kind = .plain := fun _ _ _ => kind_of_detect
  have hcounts : counts ((dump default movedOptions).run.run Scripted.host moved).1.result =
      some (2, []) := by decide +kernel
  obtain ⟨stats, hstats, hexecuted, hnone⟩ := exists_stats hcounts
  have hrename := passedOver_of_rename "shop" (by decide)
  obtain ⟨talk, s', htalk, hexcept, hall⟩ := hrename.2.2 _ Scripted.host default movedOptions moved
    rfl (by decide) hplain _ hstats
  exact ⟨(hrename.1 " CHARACTER SET utf8mb4" (by decide)).2 (by decide),
    (hrename.2.1 (by decide) "stock" "" rfl).1,
    stats, talk, s', htalk, hexecuted, hexcept, hall stats rfl hnone⟩

/-- A name with a backtick is not recognised, and these names are taken for others. -/
theorem names_of_strangers :
    names "a`b" (Sql.useDatabase "a`b") = false ∧
    names "a`b" (Sql.createDatabase "a`b") = false ∧
    names "a" (Sql.useDatabase "a b") = true ∧
    names "shop" (Sql.useDatabase "SHOP") = true ∧
    names "if" (Sql.createDatabase "shop") = true := by
  decide +kernel

end SqlBackup.Load
