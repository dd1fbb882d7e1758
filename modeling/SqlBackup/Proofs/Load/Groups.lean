import Mathlib
import SqlBackup.Dump.Piece
import SqlBackup.Load.Batch
import SqlBackup.Proofs.Job.Dialogue

/-!
# Statements in groups

What a load says to the server is a sequence of blocks, one for each group of statements. A block is
a transaction of its own: it is committed with all statements of the group, or it ends with the
first failure, or it could not be opened at all.
-/
namespace SqlBackup.Load

variable {σ : Type} {host : Host σ}

/-- What became of a group. -/
inductive Block where
  | committed (group : List Statement)
  /-- A statement failed. Those behind it were not executed. -/
  | rolledBack (done : List Statement) (failed : Statement) (rest : List Statement)
      (cause : SessionFault) (answer : Except SessionFault Unit)
  /-- All statements were executed, but the transaction could not be committed. -/
  | uncommitted (group : List Statement) (cause : SessionFault)
  /-- The transaction could not be opened. -/
  | unopened (group : List Statement) (cause : SessionFault)

/-- The execution of a statement inside a transaction. -/
def executed (session : Session) (statement : Statement) : Exchange :=
  ⟨.session session (.executeInside statement.sql), .ok ()⟩

namespace Block

def group : Block → List Statement
  | committed group => group
  | rolledBack done failed rest _ _ => done ++ failed :: rest
  | uncommitted group _ => group
  | unopened group _ => group

/-- What is said for a group. -/
def talk (session : Session) : Block → List Exchange
  | committed group =>
      ⟨.session session .begin, .ok ()⟩ :: group.map (executed session) ++
        [⟨.session session .commit, .ok ()⟩]
  | rolledBack done failed _ cause answer =>
      ⟨.session session .begin, .ok ()⟩ :: done.map (executed session) ++
        [⟨.session session (.executeInside failed.sql), .error cause⟩,
          ⟨.session session .rollback, answer⟩]
  | uncommitted group cause =>
      ⟨.session session .begin, .ok ()⟩ :: group.map (executed session) ++
        [⟨.session session .commit, .error cause⟩]
  | unopened _ cause => [⟨.session session .begin, .error cause⟩]

/-- The statements that a block committed. -/
def committed? : Block → Option (List Statement)
  | committed group => some group
  | _ => none

/-- The fault that a block ended with, if its transaction was opened. A failed commit is blamed on
the last statement of the group. -/
def fault? (database : String) : Block → Option StatementFault
  | committed _ => none
  | rolledBack _ failed _ cause _ =>
      some (.ofStatement database failed.endOffset failed.sql cause.message)
  | uncommitted group cause =>
      some (.ofStatement database ((group.getLast?.map (·.endOffset)).getD 0) "COMMIT"
        cause.message)
  | unopened _ _ => none

/-- What a group is answered with. -/
def answer (database : String) : Block → Except Fault (Option StatementFault)
  | unopened _ cause => .error (.session cause)
  | block => .ok (block.fault? database)

/-- Whether the load goes on behind a block, and else what it ends with. -/
def verdict (settings : BatchSettings) (block : Block) : Except Fault Unit :=
  match block.answer settings.database with
  | .error fault => .error fault
  | .ok none => .ok ()
  | .ok (some fault) =>
      match settings.policy fault with
      | .proceed => .ok ()
      | .abort => .error (.statement fault)

/-- What is noted about a block. -/
def note (settings : BatchSettings) (b : Batches) (block : Block) : Batches :=
  match block.answer settings.database with
  | .error _ => b
  | .ok none => b.commit block.group
  | .ok (some fault) =>
      match settings.policy fault with
      | .proceed => { b with errors := b.errors ++ [fault] }
      | .abort => b

end Block

/-- The same without the statements that wait. -/
def Batches.emptied (b : Batches) : Batches := { b with pending := [] }

theorem Batches.emptied_of_pending {b : Batches} (h : b.pending = []) : b.emptied = b := by
  rw [emptied, ← h]

/-! ### A single group -/

section Group

variable {s s' : σ} {talk : List Exchange}

/-- Statements are executed in order, up to the first that fails. -/
theorem dialogue_executeAll {session : Session} {group : List Statement}
    {result : Option (Statement × SessionFault)}
    (h : (executeAll session group).Dialogue host s talk result s') :
    (talk = group.map (executed session) ∧ result = none) ∨
      ∃ done failed rest cause, group = done ++ failed :: rest ∧
        talk = done.map (executed session) ++
          [⟨.session session (.executeInside failed.sql), .error cause⟩] ∧
        result = some (failed, cause) := by
  induction group generalizing s talk with
  | nil =>
    obtain ⟨rfl, rfl, -⟩ := h
    exact .inl ⟨rfl, rfl⟩
  | cons statement group ih =>
    obtain ⟨reply, rest, -, rfl, hrest⟩ := h
    cases reply with
    | error cause =>
      obtain ⟨rfl, rfl, -⟩ := hrest
      exact .inr ⟨[], statement, group, cause, rfl, rfl, rfl⟩
    | ok _ =>
      rcases ih hrest with ⟨rfl, rfl⟩ | ⟨done, failed, left, cause, rfl, rfl, rfl⟩
      · exact .inl ⟨rfl, rfl⟩
      · exact .inr ⟨statement :: done, failed, left, cause, rfl, rfl, rfl⟩

/-- A group is one block. -/
theorem dialogue_transact {session : Session} {database : String} {group : List Statement}
    {result : Except Fault (Option StatementFault)}
    (h : (transact session database group).run.Dialogue host s talk result s') :
    ∃ block : Block, block.group = group ∧ talk = block.talk session ∧
      result = block.answer database := by
  rw [transact, Work.dialogue_bind] at h
  rcases h with ⟨fault, rfl, hbegin⟩ | ⟨opening, _, t, inside, rfl, hbegin, hinside⟩
  · obtain ⟨reply, hfault, -, rfl, -⟩ := Session.dialogue_call.mp hbegin
    cases reply with
    | ok _ => cases hfault
    | error cause =>
      cases hfault
      exact ⟨.unopened group cause, rfl, rfl, rfl⟩
  obtain ⟨reply, hreply, -, rfl, -⟩ := Session.dialogue_call.mp hbegin
  cases reply with
  | error cause => cases hreply
  | ok _ =>
    obtain ⟨body, found, u, closing, rfl, hbody, hclosing⟩ := Work.dialogue_ofJob_bind.mp hinside
    rcases dialogue_executeAll hbody with
      ⟨rfl, rfl⟩ | ⟨done, failed, rest, cause, rfl, rfl, rfl⟩
    · obtain ⟨last, reply, v, nothing, rfl, hlast, hnothing⟩ :=
        Work.dialogue_ofJob_bind.mp hclosing
      obtain ⟨-, rfl, -⟩ := Job.dialogue_request.mp hlast
      cases reply with
      | ok _ =>
        obtain ⟨rfl, rfl, -⟩ := hnothing
        exact ⟨.committed group, rfl, rfl, rfl⟩
      | error cause =>
        obtain ⟨rfl, rfl, -⟩ := hnothing
        exact ⟨.uncommitted group cause, rfl, rfl, rfl⟩
    · obtain ⟨last, reply, v, nothing, rfl, hlast, rfl, rfl, -⟩ :=
        Work.dialogue_ofJob_bind.mp hclosing
      obtain ⟨-, rfl, -⟩ := Job.dialogue_request.mp hlast
      exact ⟨.rolledBack done failed rest cause reply, rfl, by simp [Block.talk], rfl⟩

/-- Executing the statements that wait is one block, and afterwards none waits. -/
theorem dialogue_flush {settings : BatchSettings} {b b' : Batches} {answer : Except Fault Unit}
    (hpending : b.pending ≠ [])
    (h : (b.flush settings).Dialogue host s talk (answer, b') s') :
    ∃ block : Block, block.group = b.pending ∧ talk = block.talk settings.session ∧
      answer = block.verdict settings ∧ b' = block.note settings b.emptied := by
  rw [Batches.flush, if_neg (by simpa using hpending)] at h
  obtain ⟨first, result, t, second, rfl, hfirst, hsecond⟩ := Job.dialogue_bind.mp h
  obtain ⟨block, hgroup, rfl, rfl⟩ := dialogue_transact hfirst
  refine ⟨block, hgroup, ?_⟩
  rw [Block.verdict, Block.note, hgroup]
  rcases hanswer : block.answer settings.database with fault | (_ | fault)
  · rw [hanswer] at hsecond
    obtain ⟨rfl, hsame, -⟩ := hsecond
    cases hsame
    exact ⟨List.append_nil _, rfl, rfl⟩
  · rw [hanswer] at hsecond
    obtain ⟨rfl, hsame, -⟩ := hsecond
    cases hsame
    exact ⟨List.append_nil _, rfl, rfl⟩
  · rw [hanswer] at hsecond
    cases hpolicy : settings.policy fault with
    | proceed =>
      simp only [hpolicy] at hsecond ⊢
      obtain ⟨rfl, hsame, -⟩ := hsecond
      cases hsame
      exact ⟨List.append_nil _, rfl, rfl⟩
    | abort =>
      simp only [hpolicy] at hsecond ⊢
      obtain ⟨rfl, hsame, -⟩ := hsecond
      cases hsame
      exact ⟨List.append_nil _, rfl, rfl⟩

/-- A statement waits until it fills its group, which is one block then. -/
theorem dialogue_push {settings : BatchSettings} {b b' : Batches} {statement : Statement}
    {answer : Except Fault Unit} (hroom : b.pending.length < settings.size)
    (h : (b.push settings statement).Dialogue host s talk (answer, b') s') :
    (b.pending.length + 1 < settings.size ∧ talk = [] ∧ answer = .ok () ∧
        b' = { b with pending := b.pending ++ [statement] }) ∨
      ∃ block : Block, block.group = b.pending ++ [statement] ∧
        block.group.length = settings.size ∧ talk = block.talk settings.session ∧
        answer = block.verdict settings ∧ b' = block.note settings b.emptied := by
  rw [Batches.push] at h
  dsimp only at h
  split at h
  · next hsmall =>
    obtain ⟨rfl, hsame, -⟩ := h
    cases hsame
    rw [List.length_append, List.length_singleton] at hsmall
    exact .inl ⟨hsmall, rfl, rfl, rfl⟩
  · next hfull =>
    obtain ⟨block, hgroup, htalk, hanswer, hnote⟩ := dialogue_flush (by simp) h
    refine .inr ⟨block, hgroup, ?_, htalk, hanswer, hnote⟩
    rw [hgroup]
    simp only [List.length_append, List.length_singleton] at hfull ⊢
    omega

end Group

end SqlBackup.Load
