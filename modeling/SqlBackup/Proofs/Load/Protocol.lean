import Mathlib
import SqlBackup.Proofs.Load.Groups
import SqlBackup.Scripted.Host

/-!
# A load as a sequence of transactions

However the server answers, statements are executed in consecutive groups, each in a transaction of
its own, and what a load reports is what became of the groups. No statement is executed outside of a
transaction, and none in two.
-/
namespace SqlBackup.Load

variable {σ : Type} {host : Host σ} {settings : BatchSettings} {session : Session}

/-- Hands statements on one by one, and in the end executes those that wait. A fault ends it. -/
def Batches.runAll (settings : BatchSettings) :
    List Statement → Batches → Job (Except Fault Unit × Batches)
  | [], b => b.flush settings
  | statement :: statements, b => do
      match ← b.push settings statement with
      | (.ok (), b) => runAll settings statements b
      | (.error fault, b) => pure (.error fault, b)

/-- Blocks that follow each other. Behind one that ends the load there is no other. -/
inductive Ends (settings : BatchSettings) : List Block → Except Fault Unit → Prop
  | none : Ends settings [] (.ok ())
  | stop {block : Block} {fault : Fault} (h : block.verdict settings = .error fault) :
      Ends settings [block] (.error fault)
  | goOn {block : Block} {blocks : List Block} {answer : Except Fault Unit}
      (h : block.verdict settings = .ok ()) (hrest : Ends settings blocks answer) :
      Ends settings (block :: blocks) answer

/-- A single block, whatever its verdict. -/
theorem ends_singleton (block : Block) : Ends settings [block] (block.verdict settings) := by
  cases h : block.verdict settings with
  | ok _ => exact .goOn h .none
  | error fault => exact .stop h

namespace Ends

variable {blocks : List Block} {answer : Except Fault Unit}

theorem verdict_of_mem_dropLast (h : Ends settings blocks answer) :
    ∀ block ∈ blocks.dropLast, block.verdict settings = .ok () := by
  induction h with
  | none => simp
  | stop => simp
  | @goOn block blocks answer hblock hrest ih =>
    cases blocks with
    | nil => simp
    | cons next blocks =>
      rw [List.dropLast_cons_cons, List.forall_mem_cons]
      exact ⟨hblock, ih⟩

theorem answer_eq (h : Ends settings blocks answer) :
    answer = (blocks.getLast?.map (Block.verdict settings)).getD (.ok ()) := by
  induction h with
  | none => rfl
  | stop h => exact h.symm
  | @goOn block blocks answer hblock hrest ih =>
    cases blocks with
    | nil =>
      rw [ih]
      exact hblock.symm
    | cons next blocks => rwa [List.getLast?_cons_cons]

end Ends

/-! ### The groups -/

variable {s s' : σ} {talk : List Exchange} {b b' : Batches} {answer : Except Fault Unit}

theorem Block.pending_note (block : Block) (b : Batches) :
    (block.note settings b).pending = b.pending := by
  rw [note]
  split
  · rfl
  · rfl
  · split <;> rfl

theorem pending_foldl_note (blocks : List Block) (b : Batches) :
    (blocks.foldl (Block.note settings) b).pending = b.pending := by
  induction blocks generalizing b with
  | nil => rfl
  | cons block blocks ih => rw [List.foldl_cons, ih, Block.pending_note]

/-- A list that is no longer than a part is one part. -/
theorem chunks_of_length_le {size : Nat} {group : List Statement} (hne : group ≠ [])
    (hle : group.length ≤ size) : Dump.chunks size group = [group] := by
  have hpos := List.length_pos_iff.mpr hne
  rw [Dump.chunks_eq (by omega) hne, List.take_of_length_le hle, List.drop_of_length_le hle,
    Dump.chunks_nil]

/-- A part that is full is the first. -/
theorem chunks_append {size : Nat} {group : List Statement} (hsize : 0 < size)
    (hfull : group.length = size) (statements : List Statement) :
    Dump.chunks size (group ++ statements) = group :: Dump.chunks size statements := by
  have hne : group ++ statements ≠ [] :=
    List.append_ne_nil_of_left_ne_nil (List.length_pos_iff.mp (by omega)) _
  rw [Dump.chunks_eq hsize hne, List.take_left' hfull, List.drop_left' hfull]

/-- What is said from a point of a load on is one block for each group that is left, up to one that
ends the load. -/
theorem dialogue_runAll {statements : List Statement} (hroom : b.pending.length < settings.size)
    (h : (b.runAll settings statements).Dialogue host s talk (answer, b') s') :
    ∃ blocks, Ends settings blocks answer ∧
      talk = blocks.flatMap (Block.talk settings.session) ∧
      blocks.map Block.group <+: Dump.chunks settings.size (b.pending ++ statements) ∧
      (answer = .ok () →
        blocks.map Block.group = Dump.chunks settings.size (b.pending ++ statements)) ∧
      b' = blocks.foldl (Block.note settings) b.emptied := by
  induction statements generalizing b s talk with
  | nil =>
    rw [Batches.runAll] at h
    rw [List.append_nil]
    by_cases hpending : b.pending = []
    · rw [Batches.flush, if_pos (by simpa using hpending)] at h
      obtain ⟨rfl, hsame, -⟩ := h
      cases hsame
      refine ⟨[], .none, rfl, ?_, fun _ => ?_, ?_⟩
      · exact List.nil_prefix
      · rw [hpending, Dump.chunks_nil, List.map_nil]
      · rw [List.foldl_nil, Batches.emptied_of_pending hpending]
    · obtain ⟨block, hgroup, rfl, rfl, rfl⟩ := dialogue_flush hpending h
      have hchunks := chunks_of_length_le hpending hroom.le
      refine ⟨[block], ends_singleton block, ?_, ?_, fun _ => ?_, rfl⟩
      · simp
      · rw [hchunks, List.map_singleton, hgroup]
      · rw [hchunks, List.map_singleton, hgroup]
  | cons statement statements ih =>
    rw [Batches.runAll] at h
    obtain ⟨first, ⟨result, b₁⟩, t, second, rfl, hpush, hrest⟩ := Job.dialogue_bind.mp h
    have happend : b.pending ++ statement :: statements =
        (b.pending ++ [statement]) ++ statements := by simp
    rcases dialogue_push hroom hpush with
      ⟨hsmall, rfl, rfl, rfl⟩ | ⟨block, hgroup, hlength, rfl, rfl, rfl⟩
    · rw [happend]
      exact ih (by simpa using hsmall) hrest
    · have hchunks := chunks_append settings.size_pos (hgroup ▸ hlength) statements
      rw [happend, hchunks]
      cases hverdict : block.verdict settings with
      | error fault =>
        rw [hverdict] at hrest
        obtain ⟨rfl, hsame, -⟩ := hrest
        cases hsame
        refine ⟨[block], .stop hverdict, by simp, ?_, fun hok => ?_, rfl⟩
        · rw [List.map_singleton, hgroup, List.cons_prefix_cons]
          exact ⟨rfl, List.nil_prefix⟩
        · cases hok
      | ok _ =>
        rw [hverdict] at hrest
        have hnone : (block.note settings b.emptied).pending = [] := block.pending_note b.emptied
        obtain ⟨blocks, hends, rfl, hgroups, hall, rfl⟩ :=
          ih (by rw [hnone]; exact settings.size_pos) hrest
        rw [hnone, List.nil_append] at hgroups hall
        refine ⟨block :: blocks, .goOn hverdict hends, rfl, ?_, fun hok => ?_, ?_⟩
        · rw [List.map_cons, hgroup, List.cons_prefix_cons]
          exact ⟨rfl, hgroups⟩
        · rw [List.map_cons, hgroup, hall hok]
        · rw [List.foldl_cons, Batches.emptied_of_pending hnone]

/-! ### What is reported -/

/-- The faults of some blocks that the policy goes on after. -/
def passedOver (settings : BatchSettings) (blocks : List Block) : List StatementFault :=
  (blocks.filterMap (Block.fault? settings.database)).filter (settings.policy · = .proceed)

theorem Block.note_eq (block : Block) (b : Batches) :
    block.note settings b =
      { b with
        executed := b.executed + (([block].filterMap committed?).map List.length).sum
        committed := b.committed + ([block].filterMap committed?).length
        errors := b.errors ++ passedOver settings [block] } := by
  cases block with
  | committed group =>
    simp [note, answer, fault?, committed?, passedOver, Batches.commit, Block.group]
  | unopened group cause =>
    simp [note, answer, committed?, passedOver, fault?, List.filterMap_cons]
  | rolledBack done failed rest cause answer =>
    simp only [note, Block.answer, fault?, committed?, passedOver, List.filterMap_cons]
    split <;> next hpolicy => simp [hpolicy]
  | uncommitted group cause =>
    simp only [note, Block.answer, fault?, committed?, passedOver, List.filterMap_cons]
    split <;> next hpolicy => simp [hpolicy]

/-- What is noted about blocks is the sum of what is noted about each of them. -/
theorem foldl_note (blocks : List Block) (b : Batches) :
    blocks.foldl (Block.note settings) b =
      { b with
        executed := b.executed + ((blocks.filterMap Block.committed?).map List.length).sum
        committed := b.committed + (blocks.filterMap Block.committed?).length
        errors := b.errors ++ passedOver settings blocks } := by
  induction blocks generalizing b with
  | nil => simp [passedOver]
  | cons block blocks ih =>
    have hsplit : block :: blocks = [block] ++ blocks := rfl
    rw [List.foldl_cons, ih, Block.note_eq, hsplit]
    simp only [passedOver, List.filterMap_append, List.filter_append, List.map_append,
      List.sum_append, List.length_append, List.append_assoc, Nat.add_assoc]

/-! ### Transactions -/

/-- Whether a transaction is open behind an exchange, where it is known whether one was before it.
There is none behind a transaction opened in another, or a statement executed in none. -/
def Exchange.transaction? (session : Session) (isOpen : Bool) : Exchange → Option Bool
  | ⟨.session other call, reply⟩ =>
      if other ≠ session then some isOpen
      else
        match call, reply with
        | .begin, .ok () => if isOpen then none else some true
        | .begin, .error _ => if isOpen then none else some false
        | .executeInside _, _ => if isOpen then some true else none
        | .commit, _ => if isOpen then some false else none
        | .rollback, _ => if isOpen then some false else none
        | _, _ => some isOpen
  | _ => some isOpen

/-- Transactions are opened and ended in turn, and statements are executed in between. -/
def IsTransactional (session : Session) (talk : List Exchange) : Prop :=
  talk.foldlM (Exchange.transaction? session) false = some false

/-- The statement that an exchange executes in a transaction. -/
def Exchange.inside? : Exchange → Option String
  | ⟨.session _ (.executeInside sql), _⟩ => some sql
  | _ => none

theorem foldlM_executed (session : Session) (group : List Statement) :
    (group.map (executed session)).foldlM (Exchange.transaction? session) true = some true := by
  induction group with
  | nil => rfl
  | cons statement group ih =>
    rw [List.map_cons, List.foldlM_cons]
    simpa [executed, Exchange.transaction?] using ih

theorem Block.isTransactional_talk (session : Session) (block : Block) :
    IsTransactional session (block.talk session) := by
  cases block with
  | unopened group cause => simp [IsTransactional, talk, Exchange.transaction?]
  | committed group =>
    simp [IsTransactional, talk, List.foldlM_cons, List.foldlM_append, foldlM_executed,
      Exchange.transaction?]
  | uncommitted group cause =>
    simp [IsTransactional, talk, List.foldlM_cons, List.foldlM_append, foldlM_executed,
      Exchange.transaction?]
  | rolledBack done failed rest cause answer =>
    simp [IsTransactional, talk, List.foldlM_cons, List.foldlM_append, foldlM_executed,
      Exchange.transaction?]

theorem isTransactional_flatMap (session : Session) (blocks : List Block) :
    IsTransactional session (blocks.flatMap (Block.talk session)) := by
  induction blocks with
  | nil => rfl
  | cons block blocks ih =>
    rw [IsTransactional, List.flatMap_cons, List.foldlM_append,
      show _ = some false from block.isTransactional_talk session]
    exact ih

theorem filterMap_inside_executed (session : Session) (group : List Statement) :
    group.filterMap (Exchange.inside? ∘ executed session) = group.map (·.sql) :=
  congrFun List.filterMap_eq_map group

/-- A block executes statements of its group only, each once and in order. -/
theorem Block.inside_talk (session : Session) (block : Block) :
    (block.talk session).filterMap Exchange.inside? <+: block.group.map (·.sql) := by
  cases block with
  | unopened group cause => exact List.nil_prefix
  | committed group =>
    simp [talk, List.filterMap_cons, filterMap_inside_executed, Exchange.inside?, Block.group]
  | uncommitted group cause =>
    simp [talk, List.filterMap_cons, filterMap_inside_executed, Exchange.inside?, Block.group]
  | rolledBack done failed rest cause answer =>
    simp [talk, List.filterMap_cons, filterMap_inside_executed, Exchange.inside?, Block.group]

/-- The groups of blocks are the statements up to some point, and each statement is in one. -/
theorem flatten_groups {statements : List Statement} {blocks : List Block}
    (hgroups : blocks.map Block.group <+: Dump.chunks settings.size statements) :
    (blocks.map Block.group).flatten <+: statements := by
  obtain ⟨rest, hrest⟩ := hgroups
  rw [← Dump.flatten_chunks settings.size_pos statements, ← hrest, List.flatten_append]
  exact List.prefix_append _ _

theorem sublist_inside (session : Session) (blocks : List Block) :
    ((blocks.flatMap (Block.talk session)).filterMap Exchange.inside?).Sublist
      ((blocks.map Block.group).flatten.map (·.sql)) := by
  induction blocks with
  | nil => exact List.Sublist.refl _
  | cons block blocks ih =>
    rw [List.flatMap_cons, List.filterMap_append, List.map_cons, List.flatten_cons,
      List.map_append]
    exact (block.inside_talk session).sublist.append ih

/-- Where the policy never goes on, all blocks but the last are committed. -/
theorem Ends.flatten_committed {blocks : List Block} (h : Ends settings blocks answer)
    (hpolicy : ∀ fault, settings.policy fault = .abort) :
    (blocks.filterMap Block.committed?).flatten <+: (blocks.map Block.group).flatten := by
  induction h with
  | none => exact List.prefix_rfl
  | @stop block fault _ =>
    cases block with
    | committed group => simp [Block.committed?, Block.group]
    | unopened group cause => exact List.nil_prefix
    | rolledBack done failed rest cause answer => exact List.nil_prefix
    | uncommitted group cause => exact List.nil_prefix
  | @goOn block blocks answer hblock _ ih =>
    cases block with
    | committed group =>
      rw [List.map_cons, List.flatten_cons]
      exact (List.prefix_append_right_inj group).mpr ih
    | unopened group cause => cases hblock
    | rolledBack done failed rest cause answer =>
      simp [Block.verdict, Block.answer, Block.fault?, hpolicy] at hblock
    | uncommitted group cause =>
      simp [Block.verdict, Block.answer, Block.fault?, hpolicy] at hblock

/-! ### The load as a whole -/

/-- What is known of a load that has come to an end. -/
structure Account (settings : BatchSettings) (statements : List Statement) (talk : List Exchange)
    (answer : Except Fault Unit) (b : Batches) (blocks : List Block) : Prop where
  /-- All that is said belongs to a block. -/
  talk_eq : talk = blocks.flatMap (Block.talk settings.session)
  /-- Each block is for the next group. -/
  groups : blocks.map Block.group <+: Dump.chunks settings.size statements
  /-- The load goes on behind all blocks but the last. -/
  goesOn : ∀ block ∈ blocks.dropLast, block.verdict settings = .ok ()
  /-- The last block tells how the load ends. -/
  ending : answer = (blocks.getLast?.map (Block.verdict settings)).getD (.ok ())
  /-- If it ends without a fault, no group is left. -/
  complete : answer = .ok () → blocks.map Block.group = Dump.chunks settings.size statements
  executed : b.executed = ((blocks.filterMap Block.committed?).map List.length).sum
  committed : b.committed = (blocks.filterMap Block.committed?).length
  /-- The faults noted are those that the policy went on after, in order. -/
  errors : b.errors = passedOver settings blocks
  /-- No statement is left waiting. -/
  pending : b.pending = []
  transactional : IsTransactional settings.session talk
  /-- No statement is executed twice. -/
  once : (talk.filterMap Exchange.inside?).Sublist (statements.map (·.sql))
  /-- A policy that always aborts leaves a part of the statements committed from the first on. -/
  firstCommitted : (∀ fault, settings.policy fault = .abort) →
    (blocks.filterMap Block.committed?).flatten <+: statements

/-- Whatever the server answers, a load is a sequence of blocks, one for each group of as many
statements as a group has, and reports what became of them. -/
theorem account_of_runAll (host : Host σ) (session : Session) (database : String) (size : Nat)
    (policy : Policy) (statements : List Statement) (s : σ) (answer : Except Fault Unit)
    (b : Batches)
    (h : ((Batches.runAll (.ofSize session database size policy) statements {}).run
      host s).1.result = .ok (answer, b)) :
    ∃ talk s', (Batches.runAll (.ofSize session database size policy) statements {}).Dialogue
        host s talk (answer, b) s' ∧
      ∃ blocks, Account (.ofSize session database size policy) statements talk answer b blocks := by
  obtain ⟨talk, htalk⟩ := Job.exists_dialogue h
  have hroom : ({} : Batches).pending.length <
      (BatchSettings.ofSize session database size policy).size := BatchSettings.size_pos _
  obtain ⟨blocks, hends, rfl, hgroups, hall, rfl⟩ := dialogue_runAll hroom htalk
  have hfirst := flatten_groups hgroups
  refine ⟨_, _, htalk, blocks, rfl, hgroups, hends.verdict_of_mem_dropLast, hends.answer_eq, hall,
    ?_, ?_, ?_, pending_foldl_note blocks _, isTransactional_flatMap _ blocks, ?_,
    fun hpolicy => ?_⟩
  · rw [foldl_note]
    exact Nat.zero_add _
  · rw [foldl_note]
    exact Nat.zero_add _
  · rw [foldl_note]
    exact List.nil_append _
  · exact (sublist_inside _ blocks).trans (hfirst.map _).sublist
  · exact (hends.flatten_committed hpolicy).trans hfirst

/-- A server that refuses one statement. -/
def pickyWorld : Scripted.World :=
  { (default : Scripted.World) with
    server :=
      { (default : Scripted.Server) with
        rules := [⟨some "tx", "b", 0, none, .refuse (.rejected "no")⟩] } }

/-- Goes on after the faults of the statements up to an offset. -/
def lenientUntil (offset : Nat) : Policy := fun fault =>
  if fault.offset ≤ offset then .proceed else .abort

/-- Five statements, of which the server refuses the second and the last. -/
def pickyStatements : List Statement :=
  [⟨"a", 2, 2⟩, ⟨"b", 2, 4⟩, ⟨"c", 2, 6⟩, ⟨"d", 2, 8⟩, ⟨"b", 2, 10⟩]

/-- What the load of the five statements reports: the second group was committed. -/
def pickyBatches : Batches :=
  { executed := 2, committed := 1, errors := [⟨"shop", 4, "b", "Database error: no"⟩] }

theorem account_of_picky :
    ((Batches.runAll (.ofSize default "shop" 2 (lenientUntil 5)) pickyStatements {}).run
        Scripted.host pickyWorld).1.result =
      .ok (.error (.statement ⟨"shop", 10, "b", "Database error: no"⟩), pickyBatches) ∧
    ∃ talk s', (Batches.runAll (.ofSize default "shop" 2 (lenientUntil 5)) pickyStatements
        {}).Dialogue Scripted.host pickyWorld talk
          (.error (.statement ⟨"shop", 10, "b", "Database error: no"⟩), pickyBatches) s' ∧
      ∃ blocks, Account (.ofSize default "shop" 2 (lenientUntil 5)) pickyStatements talk
        (.error (.statement ⟨"shop", 10, "b", "Database error: no"⟩)) pickyBatches blocks :=
  ⟨rfl, account_of_runAll Scripted.host default "shop" 2 (lenientUntil 5) pickyStatements pickyWorld
    _ _ rfl⟩

end SqlBackup.Load
