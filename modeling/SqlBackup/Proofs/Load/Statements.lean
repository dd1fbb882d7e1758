import Mathlib
import SqlBackup.Proofs.Load.Checks
import SqlBackup.Proofs.Load.Course

/-!
# The statements of a dump and what is executed of them

A load executes the statements of its dump from the first on, group by group. What it leaves out is
passed over for the database that it names, or stands behind the failure of its group, or comes
behind the point where a fault ends the load. If none does, every statement is accounted for.
-/
namespace SqlBackup.Load

variable {σ : Type} {host : Host σ} {s s' : σ} {talk : List Exchange}

/-- The scanner of a dump, from the offset on that the load starts from. -/
def Options.scanner (options : Options) (source : Source) : Scanner :=
  Scanner.ofSource source { name := options.path, limit := options.statementLimit }
    options.resumeOffset options.resumeDelimiter

/-- How many statements a group has. -/
def Options.groupSize (options : Options) (totalBytes : Option Nat) : Nat :=
  options.batchSize.getD (Sizing.batchSize totalBytes)

/-- What stays the same while a dump is loaded. -/
def Options.course (options : Options) (session : Session) (totalBytes : Option Nat) : Course where
  batches := .ofSize session options.database (options.groupSize totalBytes) options.policy
  passesOver sql :=
    options.renameFrom.any fun origin => origin != options.database && Rename.names origin sql
  totalBytes := totalBytes

/-- Opens a plain dump: its length, if that tells anything of its text, and the text. -/
def openSource (options : Options) (format : Dump.Format) : Work (Option Nat × Source) := do
  let content ← Work.onPath options.path (.file (.read options.path))
  let totalBytes ←
    if format.compression.isCompressed then pure none
    else some <$> Work.onPath options.path (.file (.size options.path))
  let codec ← Codec.choose format.compression options.external
  let demand := Codec.Demand.buffered (Sizing.bufferSize totalBytes)
  let source ← codec.read demand (content.behind options.resumeOffset)
  pure (totalBytes, source)

/-- Executes the statements of an opened dump. -/
def loadSource (session : Session) (options : Options) (format : Dump.Format)
    (opened : Option Nat × Source) : Work Stats := do
  let course := options.course session opened.1
  let (scanner, progress) ← course.loadAll (options.scanner opened.2) {}
  let (answer, batches) ← Work.ofJob (progress.batches.flush course.batches)
  Work.ofResult answer
  course.report scanner.position batches.executed
  pure
    { executed := batches.executed
      skipped := progress.skipped
      bytesRead := scanner.position
      totalBytes := opened.1
      endOffset := progress.endOffset
      delimiter := scanner.delimiter.bytes
      errors := batches.errors
      format }

theorem loadStatements_eq (session : Session) (options : Options) (format : Dump.Format) :
    loadStatements session options format =
      openSource options format >>= loadSource session options format := by
  rw [loadStatements, openSource, bind_assoc]
  congr 1
  funext content
  dsimp only
  split
  · rw [pure_bind, pure_bind, bind_assoc]
    congr 1
    funext codec
    rw [bind_assoc]
    rfl
  · rw [bind_assoc]
    congr 1
    funext totalBytes
    rw [bind_assoc]
    congr 1
    funext codec
    rw [bind_assoc]
    rfl

/-! ### Groups and the statements left over -/

/-- Full groups are the first parts. -/
theorem chunks_full_append {size : Nat} (hsize : 0 < size) {groups : List (List Statement)}
    (hfull : ∀ group ∈ groups, group.length = size) (statements : List Statement) :
    Dump.chunks size (groups.flatten ++ statements) = groups ++ Dump.chunks size statements := by
  induction groups with
  | nil => rfl
  | cons group groups ih =>
    obtain ⟨hgroup, hgroups⟩ := List.forall_mem_cons.mp hfull
    rw [List.flatten_cons, List.append_assoc, chunks_append hsize hgroup, ih hgroups,
      List.cons_append]

/-- How the load of a scanner ended. -/
inductive Ending (c : Course) (sc : Scanner) (blocks : List Block) : Except Fault Stats → Prop
  /-- With the last block. -/
  | stopped {fault : Fault} (h : Ends c.batches blocks (.error fault)) : Ending c sc blocks (.error fault)
  /-- With a fault of the scanner, while the last statements waited for their group to fill. -/
  | broken {fault : Fault} {waiting : List Statement} (h : Ends c.batches blocks (.ok ()))
      (hfault : sc.fault? = some fault) (hroom : waiting.length < c.batches.size)
      (hall : sc.statements.filter c.keeps = (blocks.map Block.group).flatten ++ waiting) :
      Ending c sc blocks (.error fault)
  /-- With all statements in a group. -/
  | complete {stats : Stats} (h : Ends c.batches blocks (.ok ())) (hfault : sc.fault? = none)
      (hall : sc.statements.filter c.keeps = (blocks.map Block.group).flatten)
      (hexecuted : stats.executed = ((blocks.filterMap Block.committed?).map List.length).sum)
      (hskipped : stats.skipped = (sc.statements.filter c.drops).length)
      (herrors : stats.errors = passedOver c.batches blocks) : Ending c sc blocks (.ok stats)

/-- What is known of the load of a scanner. -/
structure Loaded (c : Course) (sc : Scanner) (talk : List Exchange) (outcome : Except Fault Stats)
    (blocks : List Block) : Prop where
  talk_eq : transacted talk = blocks.flatMap (Block.talk c.batches.session)
  groups : blocks.map Block.group <+: Dump.chunks c.batches.size (sc.statements.filter c.keeps)
  /-- Only the end of a stream lets a group be executed that is not full. -/
  full : sc.fault? ≠ none → ∀ block ∈ blocks, block.group.length = c.batches.size
  ending : Ending c sc blocks outcome

section Parts

variable {c : Course} {sc : Scanner} {blocks : List Block} {waiting reached beyond : List Statement}

/-- The groups of a load so far are the first parts of all that there are. -/
theorem Course.Fills.groups_prefix (hfills : c.Fills [] reached talk blocks waiting)
    (hsplit : sc.statements = reached ++ beyond) :
    blocks.map Block.group <+: Dump.chunks c.batches.size (sc.statements.filter c.keeps) := by
  have hall : sc.statements.filter c.keeps =
      (blocks.map Block.group).flatten ++ (waiting ++ beyond.filter c.keeps) := by
    rw [hsplit, List.filter_append, ← List.append_assoc, ← hfills.groups, List.nil_append]
  have hfull : ∀ group ∈ blocks.map Block.group, group.length = c.batches.size := by
    intro group hgroup
    obtain ⟨block, hblock, rfl⟩ := List.mem_map.mp hgroup
    exact hfills.full block hblock
  rw [hall, chunks_full_append c.batches.size_pos hfull]
  exact List.prefix_append _ _

/-- What is known when the statements left over have been executed as well. -/
theorem Course.Arrives.flushed {p : Progress} {rest : List Exchange} {answer : Except Fault Unit}
    {batches : Batches} (hfills : c.Fills [] sc.statements talk blocks waiting)
    (harrives : c.Arrives {} sc.statements blocks waiting p)
    (h : (p.batches.flush c.batches).Dialogue host s rest (answer, batches) s') :
    ∃ blocks', Ends c.batches blocks' answer ∧
      transacted (talk ++ rest) = blocks'.flatMap (Block.talk c.batches.session) ∧
      sc.statements.filter c.keeps = (blocks'.map Block.group).flatten ∧
      blocks'.map Block.group = Dump.chunks c.batches.size (sc.statements.filter c.keeps) ∧
      batches = blocks'.foldl (Block.note c.batches) {} := by
  have hall : sc.statements.filter c.keeps = (blocks.map Block.group).flatten ++ waiting :=
    hfills.groups
  have hfull : ∀ group ∈ blocks.map Block.group, group.length = c.batches.size := by
    intro group hgroup
    obtain ⟨block, hblock, rfl⟩ := List.mem_map.mp hgroup
    exact hfills.full block hblock
  have hnone : (blocks.foldl (Block.note c.batches) {}).pending = [] :=
    pending_foldl_note blocks {}
  by_cases hwaiting : waiting = []
  · have hpending : p.batches.pending = [] := by rw [harrives.batches, hwaiting]
    rw [Batches.flush, if_pos (by simpa using hpending)] at h
    obtain ⟨rfl, hsame, -⟩ := h
    cases hsame
    rw [hwaiting, List.append_nil] at hall
    refine ⟨blocks, harrives.goesOn, by rw [List.append_nil, hfills.talk_eq], hall, ?_, ?_⟩
    · rw [hall, ← List.append_nil (List.flatten _), chunks_full_append c.batches.size_pos hfull,
        Dump.chunks_nil, List.append_nil]
    · rw [harrives.batches, hwaiting]
      exact Batches.emptied_of_pending hnone
  · have hpending : p.batches.pending = waiting := by rw [harrives.batches]
    obtain ⟨block, hgroup, rfl, rfl, rfl⟩ := dialogue_flush (hpending ▸ hwaiting) h
    rw [hpending] at hgroup
    refine ⟨blocks ++ [block], harrives.goesOn.append (ends_singleton block), ?_, ?_, ?_, ?_⟩
    · rw [transacted_append, hfills.talk_eq, transacted_talk, List.flatMap_append,
        List.flatMap_singleton]
    · rw [hall, List.map_append, List.flatten_append, List.map_singleton, hgroup]
      simp
    · rw [hall, chunks_full_append c.batches.size_pos hfull,
        chunks_of_length_le hwaiting harrives.room.le, List.map_append, List.map_singleton, hgroup]
    · rw [harrives.batches, List.foldl_append, List.foldl_cons, List.foldl_nil]
      congr 1
      exact Batches.emptied_of_pending hnone

end Parts

theorem dialogue_loadSource {session : Session} {options : Options} {format : Dump.Format}
    {opened : Option Nat × Source} {outcome : Except Fault Stats}
    (h : (loadSource session options format opened).run.Dialogue host s talk outcome s') :
    ∃ blocks, Loaded (options.course session opened.1) (options.scanner opened.2) talk outcome
      blocks := by
  rw [loadSource] at h
  have hroom : ({} : Progress).batches.pending.length <
      (options.course session opened.1).batches.size := BatchSettings.size_pos _
  rcases Work.dialogue_bind.mp h with
    ⟨fault, rfl, hload⟩ | ⟨first, ⟨scanner, progress⟩, t, rest, rfl, hload, hrest⟩
  · obtain ⟨blocks, waiting, reached, beyond, hsplit, hfills, hend⟩ :=
      Course.dialogue_loadAll hroom hload
    refine ⟨blocks, hfills.talk_eq, hfills.groups_prefix hsplit, fun _ => hfills.full, ?_⟩
    rcases hend with ⟨fault', hsame, -, hends⟩ |
      ⟨rfl, p', harrives, ⟨fault', hfault, hsame⟩ | ⟨-, sc', hno⟩⟩
    · cases hsame
      exact .stopped hends
    · cases hsame
      rw [List.append_nil] at hsplit
      refine .broken harrives.goesOn hfault harrives.room ?_
      rw [hsplit]
      exact hfills.groups
    · cases hno
  · obtain ⟨blocks, waiting, reached, beyond, hsplit, hfills, hend⟩ :=
      Course.dialogue_loadAll hroom hload
    rcases hend with ⟨fault, hno, -⟩ |
      ⟨rfl, p', harrives, ⟨fault, -, hno⟩ | ⟨hfault, sc', hsame⟩⟩
    · cases hno
    · cases hno
    cases hsame
    rw [List.append_nil] at hsplit
    subst hsplit
    obtain ⟨pushed, ⟨answer, batches⟩, u, last, rfl, hflush, hlast⟩ :=
      Work.dialogue_ofJob_bind.mp hrest
    obtain ⟨blocks', hends, htalk, hall, hchunks, rfl⟩ := harrives.flushed hfills hflush
    have hquiet : transacted last = [] → transacted (first ++ (pushed ++ last)) =
        blocks'.flatMap (Block.talk (options.course session opened.1).batches.session) := by
      intro hlast
      rw [← List.append_assoc, transacted_append, htalk, hlast, List.append_nil]
    have hgroups : blocks'.map Block.group <+: Dump.chunks _ _ :=
      ⟨[], (List.append_nil _).trans hchunks⟩
    cases answer with
    | error fault =>
      obtain ⟨rfl, rfl, -⟩ := hlast
      exact ⟨blocks', hquiet rfl, hgroups, fun hne => (hne hfault).elim, .stopped hends⟩
    | ok _ =>
      obtain ⟨v, nothing, hsame, rfl, rfl, -⟩ := dialogue_report_bind hlast
      refine ⟨blocks', hquiet hsame, hgroups, fun hne => (hne hfault).elim,
        .complete hends hfault hall ?_ ?_ ?_⟩
      · rw [foldl_note]
        exact Nat.zero_add _
      · rw [harrives.skipped]
        exact Nat.zero_add _
      · rw [foldl_note]
        exact List.nil_append _

end SqlBackup.Load
