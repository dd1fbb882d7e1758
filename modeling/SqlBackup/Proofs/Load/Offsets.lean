import Mathlib
import SqlBackup.Proofs.Load.Reading

/-!
# Loads one behind the other

A load reads its file to the end, and the offset that it reports is that of the last statement read.
If there was none it reports 0, wherever it started. Loads that each start where the one before them
ended get on from one to the next as long as there are statements to read, and execute none twice.
-/
namespace SqlBackup.Load

open Scan

variable {σ : Type} {host : Host σ} {files : σ → Scripted.Tree} {bytes : List UInt8}
  {session : Session} {options : Options} {s s' : σ} {talk : List Exchange} {stats : Stats}

/-- A load without a fault of a file with these bytes, which is not compressed. -/
structure Pass (host : Host σ) (files : σ → Scripted.Tree) (bytes : List UInt8) (session : Session)
    (options : Options) (s : σ) (talk : List Exchange) (stats : Stats) (s' : σ) : Prop where
  file : (files s).open? options.path = .ok (.file bytes)
  load : (dump session options).run.Dialogue host s talk (.ok stats) s'
  format : stats.format = ⟨.none, .plain⟩

/-- What is known of a load that starts at this offset and reads these statements. -/
structure Advanced (bytes : List UInt8) (offset : Nat) (statements : List Statement)
    (talk : List Exchange) (stats : Stats) : Prop where
  bytesRead : stats.bytesRead = bytes.length
  totalBytes : stats.totalBytes = some bytes.length
  increasing : (offset :: statements.map (·.endOffset)).Pairwise (· < ·)
  within : ∀ statement ∈ statements, statement.endOffset ≤ bytes.length
  endOffset : stats.endOffset = (statements.map (·.endOffset)).getLast?.getD 0
  executed : ∃ done : List Statement, done.Sublist statements ∧
    talk.filterMap Exchange.inside? = done.map (·.sql)

theorem Options.rising_scannerOf (options : Options) (bytes : List UInt8) :
    Rising options.resumeOffset (options.resumeOffset + (bytes.drop options.resumeOffset).length)
      (options.scannerOf bytes).results := by
  rw [scannerOf, scanner, Scanner.results_ofSource]
  exact State.rising_transcript (State.forward_initial _ _)

theorem Pass.advanced (hfiles : host.HasFiles files)
    (h : Pass host files bytes session options s talk stats s')
    (hle : options.resumeOffset ≤ bytes.length) :
    Advanced bytes options.resumeOffset (options.scannerOf bytes).statements talk stats := by
  obtain ⟨htotal, ⟨front, d, hreads⟩, blocks, haccounted⟩ :=
    reads_of_dump hfiles h.file h.load h.format
  have hresults := hreads.results_eq
  have hlength : options.resumeOffset + (bytes.drop options.resumeOffset).length =
      bytes.length := by
    rw [List.length_drop]
    omega
  have hrising := options.rising_scannerOf bytes
  rw [hlength] at hrising
  have hlast : stats.bytesRead = bytes.length := by
    refine hrising.ended ⟨.ok none, d, stats.bytesRead⟩ ?_ rfl
    simp [hresults]
  have hends : endOffsets front = (options.scannerOf bytes).statements.map (·.endOffset) := by
    simp [endOffsets, Scanner.statements, hresults, Result.statement?]
  refine ⟨hlast, htotal, hrising.increasing, ?_, by rw [hreads.endOffset, hends], _,
    haccounted.once, haccounted.executed⟩
  intro statement hstatement
  exact hrising.within _ (List.mem_map_of_mem hstatement)

/-- What is executed where no statement fails and none is passed over. -/
theorem Pass.sql_eq (hfiles : host.HasFiles files)
    (h : Pass host files bytes session options s talk stats s') (hrename : options.renameFrom = none)
    (hnone : stats.errors = []) :
    talk.filterMap Exchange.inside? = (options.scannerOf bytes).statements.map (·.sql) := by
  obtain ⟨-, -, blocks, haccounted⟩ := reads_of_dump hfiles h.file h.load h.format
  have hkeeps : ∀ statement, (options.course session (some bytes.length)).keeps statement = true := by
    intro statement
    simp [Course.keeps, Course.drops, Options.course, hrename]
  rw [(haccounted.allExecuted stats rfl hnone).1,
    List.filter_eq_self.mpr fun statement _ => hkeeps statement]

namespace Advanced

variable {offset : Nat} {statements : List Statement}

theorem lt_of_mem (h : Advanced bytes offset statements talk stats) {statement : Statement}
    (hstatement : statement ∈ statements) : offset < statement.endOffset :=
  (List.pairwise_cons.mp h.increasing).1 _ (List.mem_map_of_mem hstatement)

/-- The offset reported is that of the last statement, if there is one. -/
theorem endOffset_cases (h : Advanced bytes offset statements talk stats) :
    statements = [] ∧ stats.endOffset = 0 ∨
      ∃ front last, statements = front ++ [last] ∧ stats.endOffset = last.endOffset := by
  rw [h.endOffset]
  rcases List.eq_nil_or_concat statements with rfl | ⟨front, last, rfl⟩
  · exact .inl ⟨rfl, rfl⟩
  · exact .inr ⟨front, last, List.concat_eq_append, by simp⟩

theorem endOffset_le (h : Advanced bytes offset statements talk stats) :
    stats.endOffset ≤ bytes.length := by
  rcases h.endOffset_cases with ⟨-, hzero⟩ | ⟨front, last, rfl, hlast⟩
  · rw [hzero]
    exact Nat.zero_le _
  · rw [hlast]
    exact h.within last (by simp)

theorem le_endOffset (h : Advanced bytes offset statements talk stats) :
    ∀ statement ∈ statements, statement.endOffset ≤ stats.endOffset := by
  rcases h.endOffset_cases with ⟨rfl, -⟩ | ⟨front, last, rfl, hlast⟩
  · simp
  · have hincreasing := (List.pairwise_cons.mp h.increasing).2
    rw [List.map_append, List.pairwise_append] at hincreasing
    rw [hlast, List.forall_mem_append, List.forall_mem_singleton]
    refine ⟨fun statement hstatement => ?_, le_rfl⟩
    exact (hincreasing.2.2 _ (List.mem_map_of_mem hstatement) _ (by simp)).le

/-- A load reports no offset before its own, unless it read nothing. -/
theorem le_endOffset_iff (h : Advanced bytes offset statements talk stats) :
    offset ≤ stats.endOffset ↔ statements ≠ [] ∨ offset = 0 := by
  rcases h.endOffset_cases with ⟨rfl, hzero⟩ | ⟨front, last, rfl, hlast⟩
  · simp [hzero]
  · have hlt := h.lt_of_mem (show last ∈ front ++ [last] by simp)
    rw [← hlast] at hlt
    simp [hlt.le]

theorem lt_endOffset (h : Advanced bytes offset statements talk stats)
    (hne : stats.endOffset ≠ 0) : offset < stats.endOffset := by
  rcases h.endOffset_cases with ⟨-, hzero⟩ | ⟨front, last, rfl, hlast⟩
  · exact absurd hzero hne
  · rw [hlast]
    exact h.lt_of_mem (by simp)

/-- The statements executed stand one behind the other. -/
theorem exists_done (h : Advanced bytes offset statements talk stats) :
    ∃ done : List Statement, talk.filterMap Exchange.inside? = done.map (·.sql) ∧
      (offset :: done.map (·.endOffset)).Pairwise (· < ·) ∧
      ∀ statement ∈ done, statement.endOffset ≤ stats.endOffset := by
  obtain ⟨done, hdone, hexecuted⟩ := h.executed
  refine ⟨done, hexecuted, h.increasing.sublist ((hdone.map _).cons_cons offset), ?_⟩
  exact fun statement hstatement => h.le_endOffset statement (hdone.subset hstatement)

end Advanced

/-! ### Loads that follow each other -/

/-- Loads of a file, the first of them from this offset, and each other from where the one before it
ended. In between, anything can happen that leaves the file as it is. -/
inductive Chain (host : Host σ) (files : σ → Scripted.Tree) (bytes : List UInt8) :
    Nat → List (List Exchange × Stats) → Prop
  | nil (offset : Nat) : Chain host files bytes offset []
  | cons {session : Session} {options : Options} {s s' : σ} {talk : List Exchange} {stats : Stats}
      {loads : List (List Exchange × Stats)}
      (hpass : Pass host files bytes session options s talk stats s')
      (hrest : Chain host files bytes stats.endOffset loads) :
      Chain host files bytes options.resumeOffset ((talk, stats) :: loads)

/-- What is executed by all loads together. -/
def executedSql (loads : List (List Exchange × Stats)) : List String :=
  loads.flatMap fun load => load.1.filterMap Exchange.inside?

/-- The offsets that are reported where there was a statement to read. -/
def reported (loads : List (List Exchange × Stats)) : List Nat :=
  (loads.map (·.2.endOffset)).filter (· ≠ 0)

theorem pairwise_lt_append {offset middle : Nat} {front back : List Nat}
    (hfront : (offset :: front).Pairwise (· < ·)) (hle : ∀ e ∈ front, e ≤ middle)
    (hlt : offset < middle) (hback : (middle :: back).Pairwise (· < ·)) :
    (offset :: (front ++ back)).Pairwise (· < ·) := by
  rw [← List.cons_append, List.pairwise_append]
  obtain ⟨hbehind, hback⟩ := List.pairwise_cons.mp hback
  refine ⟨hfront, hback, ?_⟩
  rw [List.forall_mem_cons]
  exact ⟨fun e he => hlt.trans (hbehind e he), fun a ha e he => (hle a ha).trans_lt (hbehind e he)⟩

theorem Chain.increasing (hfiles : host.HasFiles files) {offset : Nat}
    {loads : List (List Exchange × Stats)} (h : Chain host files bytes offset loads)
    (hle : offset ≤ bytes.length) (hread : ∀ load ∈ loads.dropLast, load.2.endOffset ≠ 0) :
    (offset :: reported loads).Pairwise (· < ·) ∧
      ∃ done : List Statement, executedSql loads = done.map (·.sql) ∧
        (offset :: done.map (·.endOffset)).Pairwise (· < ·) := by
  induction h with
  | nil offset => exact ⟨by simp [reported], [], rfl, by simp⟩
  | @cons session options s s' talk stats loads hpass hrest ih =>
    have hadvanced := hpass.advanced hfiles hle
    obtain ⟨done, hexecuted, hincreasing, hwithin⟩ := hadvanced.exists_done
    by_cases hzero : stats.endOffset = 0
    · -- Nothing follows a load that reads nothing.
      have hlast : loads = [] := by
        by_contra hne
        rw [List.dropLast_cons_of_ne_nil hne] at hread
        exact hread _ List.mem_cons_self hzero
      subst hlast
      refine ⟨by simp [reported, hzero], done, ?_, hincreasing⟩
      rw [executedSql, List.flatMap_singleton, hexecuted]
    · have hlt := hadvanced.lt_endOffset hzero
      obtain ⟨hreported, later, hlater, hbehind⟩ := ih hadvanced.endOffset_le fun load hload => by
        refine hread load ?_
        cases loads with
        | nil => cases hload
        | cons next loads => exact List.mem_cons_of_mem _ hload
      constructor
      · have hsplit : reported ((talk, stats) :: loads) = [stats.endOffset] ++ reported loads := by
          simp [reported, hzero]
        rw [hsplit]
        exact pairwise_lt_append (by simpa using hlt) (by simp) hlt hreported
      · refine ⟨done ++ later, ?_, ?_⟩
        · rw [executedSql, List.flatMap_cons, hexecuted, List.map_append, ← hlater]
          rfl
        · rw [List.map_append]
          refine pairwise_lt_append hincreasing ?_ hlt hbehind
          simpa using hwithin

/-- A load without a fault of a file that is not compressed reads it to the end and reports an offset
within it, which is not before the one that it started from exactly if it read a statement or
started from the front. If loads follow each other and none but the last finds nothing to read, the
offsets that they report increase, and they execute statements that end at increasing offsets, so
that none is executed twice. -/
theorem advanced_of_passes (host : Host σ) (files : σ → Scripted.Tree) (hfiles : host.HasFiles files)
    (bytes : List UInt8) :
    (∀ session options s talk stats s', options.resumeOffset ≤ bytes.length →
      Pass host files bytes session options s talk stats s' →
      Advanced bytes options.resumeOffset (options.scannerOf bytes).statements talk stats ∧
        stats.endOffset ≤ stats.bytesRead ∧
        (options.resumeOffset ≤ stats.endOffset ↔
          (options.scannerOf bytes).statements ≠ [] ∨ options.resumeOffset = 0)) ∧
    ∀ offset loads, offset ≤ bytes.length → Chain host files bytes offset loads →
      (∀ load ∈ loads.dropLast, load.2.endOffset ≠ 0) →
      (offset :: reported loads).Pairwise (· < ·) ∧
        ∃ done : List Statement, executedSql loads = done.map (·.sql) ∧
          (offset :: done.map (·.endOffset)).Pairwise (· < ·) := by
  constructor
  · intro session options s talk stats s' hle hpass
    have hadvanced := hpass.advanced hfiles hle
    exact ⟨hadvanced, hadvanced.bytesRead.symm ▸ hadvanced.endOffset_le,
      hadvanced.le_endOffset_iff⟩
  · exact fun offset loads hle hchain hread => hchain.increasing hfiles hle hread

/-! ### A dump of two statements -/

/-- A world with a dump of these bytes. -/
def worldWith (bytes : List UInt8) : Scripted.World :=
  { (default : Scripted.World) with files := ⟨[(["dump.sql"], .file bytes)]⟩ }

theorem open?_worldWith (bytes : List UInt8) :
    (worldWith bytes).files.open? "dump.sql" = .ok (.file bytes) := by
  have hsplit : Files.Path.split "dump.sql" = ["dump.sql"] := by decide
  have hresolve : (worldWith bytes).files.resolve "dump.sql" = .ok ["dump.sql"] := by
    rw [Scripted.Tree.resolve, if_neg (by decide), if_neg (by decide), if_neg (by decide),
      if_neg (by decide), hsplit, Scripted.Tree.walk, Scripted.Tree.at?_nil]
    dsimp only
    rw [if_neg (by decide), if_neg (by decide), if_neg (by decide)]
    rfl
  rw [Scripted.Tree.open?, hresolve]
  rfl

def resuming (offset : Nat) (d : Delimiter) : Options :=
  { path := "dump.sql", database := "shop", compression := some .none, resumeOffset := offset
    resumeDelimiter := d }

/-- The offset and the delimiter reported, the faults noted and the format, of a load that came to an
end without a fault. -/
def report? (result : Except String (Except Fault Stats)) :
    Option (Nat × List UInt8 × List StatementFault × Dump.Format) :=
  match result with
  | .ok (.ok stats) => some (stats.endOffset, stats.delimiter, stats.errors, stats.format)
  | _ => none

theorem exists_of_report? {result : Except String (Except Fault Stats)} {n : Nat}
    {delimiter : List UInt8} {errors : List StatementFault} {format : Dump.Format}
    (h : report? result = some (n, delimiter, errors, format)) :
    ∃ stats, result = .ok (.ok stats) ∧ stats.endOffset = n ∧ stats.delimiter = delimiter ∧
      stats.errors = errors ∧ stats.format = format := by
  rcases result with text | fault | stats
  · cases h
  · cases h
  · cases h
    exact ⟨stats, rfl, rfl, rfl, rfl, rfl⟩

theorem exists_pass {bytes : List UInt8} {offset n : Nat} {d : Delimiter} {delimiter : List UInt8}
    (h : report? ((dump default (resuming offset d)).run.run Scripted.host
      (worldWith bytes)).1.result = some (n, delimiter, [], ⟨.none, .plain⟩)) :
    ∃ talk stats s', Pass Scripted.host Scripted.World.files bytes default (resuming offset d)
      (worldWith bytes) talk stats s' ∧ stats.endOffset = n ∧ stats.delimiter = delimiter ∧
        stats.errors = [] := by
  obtain ⟨stats, hstats, hend, hdelimiter, herrors, hformat⟩ := exists_of_report? h
  obtain ⟨talk, htalk⟩ := Job.exists_dialogue hstats
  exact ⟨talk, stats, _, ⟨open?_worldWith bytes, htalk, hformat⟩, hend, hdelimiter, herrors⟩

def twoStatements : List UInt8 := Text.Utf8.encode "a;\nb;\n"

/-- A load from behind the first statement reads the other. It ends where a load from the front does,
and behind that there is nothing to read. -/
theorem advanced_of_short :
    (∃ talk stats, Advanced twoStatements 3
        ((resuming 3 semicolon).scannerOf twoStatements).statements talk stats ∧
      stats.endOffset ≤ stats.bytesRead ∧ stats.endOffset = 5 ∧
        (3 ≤ stats.endOffset ↔
          ((resuming 3 semicolon).scannerOf twoStatements).statements ≠ [] ∨ 3 = 0)) ∧
    ∃ first second, Chain Scripted.host Scripted.World.files twoStatements 0 [first, second] ∧
      (0 :: reported [first, second]).Pairwise (· < ·) ∧
        ∃ done : List Statement, executedSql [first, second] = done.map (·.sql) ∧
          (0 :: done.map (·.endOffset)).Pairwise (· < ·) := by
  have hadvanced := advanced_of_passes Scripted.host Scripted.World.files Scripted.hasFiles_host
    twoStatements
  constructor
  · obtain ⟨talk, stats, s', hpass, hend, -⟩ :=
      @exists_pass twoStatements 3 5 semicolon [0x3B] (by decide +kernel)
    obtain ⟨hreads, hle, hiff⟩ := hadvanced.1 _ _ _ _ _ _ (by decide) hpass
    exact ⟨talk, stats, hreads, hle, hend, hiff⟩
  · obtain ⟨talk, stats, s', hpass, hend, -⟩ :=
      @exists_pass twoStatements 0 5 semicolon [0x3B] (by decide +kernel)
    obtain ⟨talk', stats', t', hpass', -⟩ :=
      @exists_pass twoStatements 5 0 semicolon [0x3B] (by decide +kernel)
    have hchain : Chain Scripted.host Scripted.World.files twoStatements 0
        [(talk, stats), (talk', stats')] := by
      refine .cons hpass ?_
      rw [hend]
      exact .cons hpass' (.nil _)
    refine ⟨_, _, hchain, hadvanced.2 0 _ (by decide) hchain ?_⟩
    simp [hend]

/-- The load that finds nothing to read starts from the last statement and reports 0, and one that
starts from there executes all statements a second time. -/
theorem executedSql_of_short :
    ∃ loads, Chain Scripted.host Scripted.World.files twoStatements 0 loads ∧
      loads.map (·.2.endOffset) = [5, 0, 5] ∧ executedSql loads = ["a", "b", "a", "b"] := by
  obtain ⟨talk, stats, s', hpass, hend, -, herrors⟩ :=
    @exists_pass twoStatements 0 5 semicolon [0x3B] (by decide +kernel)
  obtain ⟨talk', stats', t', hpass', hend', -, herrors'⟩ :=
    @exists_pass twoStatements 5 0 semicolon [0x3B] (by decide +kernel)
  have hfirst : ((resuming 0 semicolon).scannerOf twoStatements).statements.map (·.sql) =
      ["a", "b"] := by decide +kernel
  have hsecond : ((resuming 5 semicolon).scannerOf twoStatements).statements.map (·.sql) = [] := by
    decide +kernel
  refine ⟨[(talk, stats), (talk', stats'), (talk, stats)], ?_, ?_, ?_⟩
  · refine .cons hpass ?_
    rw [hend]
    refine .cons hpass' ?_
    rw [hend']
    exact .cons hpass (.nil _)
  · simp [hend, hend']
  · simp [executedSql, hpass.sql_eq Scripted.hasFiles_host rfl herrors,
      hpass'.sql_eq Scripted.hasFiles_host rfl herrors', hfirst, hsecond]

end SqlBackup.Load
