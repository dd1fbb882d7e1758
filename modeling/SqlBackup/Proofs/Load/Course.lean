import Mathlib
import SqlBackup.Load.Dump
import SqlBackup.Proofs.Job.Asks
import SqlBackup.Proofs.Job.Dialogue
import SqlBackup.Proofs.Load.Protocol
import SqlBackup.Proofs.Scan.Failing

/-!
# From a scanner to groups

The statements that a scanner yields go into groups as they come, but for those passed over. The
load of a scanner is followed statement by statement: at each point the statements so far are those
of the groups executed and fewer than a group that wait.
-/
namespace SqlBackup

/-- A request to open or end a transaction, or to execute a statement in one. -/
def Request.transacts : Request → Bool
  | .session _ .begin => true
  | .session _ (.executeInside _) => true
  | .session _ .commit => true
  | .session _ .rollback => true
  | _ => false

namespace Load

/-- What is said about transactions. -/
def transacted (talk : List Exchange) : List Exchange := talk.filter (·.request.transacts)

theorem transacted_append (first second : List Exchange) :
    transacted (first ++ second) = transacted first ++ transacted second :=
  List.filter_append first second

variable {σ α : Type} {host : Host σ} {s s' : σ} {talk : List Exchange}

theorem transacted_eq_nil (h : ∀ exchange ∈ talk, exchange.request.transacts = false) :
    transacted talk = [] := by
  unfold transacted
  rw [List.filter_eq_nil_iff]
  intro exchange hexchange
  rw [h exchange hexchange]
  exact Bool.false_ne_true

/-- A job without transactions says nothing about any. -/
theorem transacted_of_asks {job : Job α} {allowed : Request → Prop} {wanted : α → Prop} {a : α}
    (hallowed : ∀ request, allowed request → request.transacts = false)
    (hjob : job.Asks allowed wanted) (h : job.Dialogue host s talk a s') : transacted talk = [] := by
  apply transacted_eq_nil
  intro exchange hexchange
  exact hallowed _ (hjob.requests h exchange hexchange)

/-- All that is said for a block is about its transaction. -/
theorem transacted_talk (session : Session) (block : Block) :
    transacted (block.talk session) = block.talk session := by
  have hexecuted (group : List Statement) :
      transacted (group.map (executed session)) = group.map (executed session) := by
    unfold transacted
    rw [List.filter_eq_self]
    intro exchange hexchange
    obtain ⟨statement, -, rfl⟩ := List.mem_map.mp hexchange
    rfl
  cases block with
  | unopened group cause => rfl
  | committed group =>
    show transacted ((_ :: _) ++ _) = _
    rw [transacted_append, ← List.singleton_append, transacted_append, hexecuted]
    rfl
  | uncommitted group cause =>
    show transacted ((_ :: _) ++ _) = _
    rw [transacted_append, ← List.singleton_append, transacted_append, hexecuted]
    rfl
  | rolledBack done failed rest cause answer =>
    show transacted ((_ :: _) ++ _) = _
    rw [transacted_append, ← List.singleton_append, transacted_append, hexecuted]
    rfl

/-- A report says nothing about transactions and cannot fail. -/
theorem dialogue_report_bind {c : Course} {bytesRead executed : Nat} {f : Unit → Work α}
    {result : Except Fault α}
    (h : (c.report bytesRead executed >>= f).run.Dialogue host s talk result s') :
    ∃ t second, transacted talk = transacted second ∧
      (f ()).run.Dialogue host t second result s' := by
  obtain ⟨first, _, t, second, rfl, hfirst, hsecond⟩ := Work.dialogue_ofJob_bind.mp h
  obtain ⟨-, rfl, rfl⟩ := Job.dialogue_request.mp hfirst
  exact ⟨_, second, rfl, hsecond⟩

/-! ### Statement by statement -/

namespace Course

/-- Whether a statement is not executed because of the database that it names. -/
def drops (c : Course) (statement : Statement) : Bool := c.passesOver statement.sql

/-- Whether a statement is handed on for execution. -/
def keeps (c : Course) (statement : Statement) : Bool := !c.drops statement

/-- What is said from a point of a load on, where statements wait: a block for each group that these
statements fill, and others wait then. -/
structure Fills (c : Course) (waiting statements : List Statement) (talk : List Exchange)
    (blocks : List Block) (waiting' : List Statement) : Prop where
  talk_eq : transacted talk = blocks.flatMap (Block.talk c.batches.session)
  full : ∀ block ∈ blocks, block.group.length = c.batches.size
  groups : waiting ++ statements.filter c.keeps = (blocks.map Block.group).flatten ++ waiting'

/-- How far a load has come behind blocks that it goes on after. -/
structure Arrives (c : Course) (p : Progress) (statements : List Statement) (blocks : List Block)
    (waiting : List Statement) (p' : Progress) : Prop where
  goesOn : Ends c.batches blocks (.ok ())
  room : waiting.length < c.batches.size
  batches : p'.batches =
    { blocks.foldl (Block.note c.batches) p.batches.emptied with pending := waiting }
  skipped : p'.skipped = p.skipped + (statements.filter c.drops).length

variable {c : Course} {p p' p'' : Progress} {waiting waiting' waiting'' : List Statement}
  {first second : List Statement} {blocks blocks' : List Block}

theorem Fills.append {talk' : List Exchange} (h : c.Fills waiting first talk blocks waiting')
    (h' : c.Fills waiting' second talk' blocks' waiting'') :
    c.Fills waiting (first ++ second) (talk ++ talk') (blocks ++ blocks') waiting'' := by
  constructor
  · rw [transacted_append, h.talk_eq, h'.talk_eq, List.flatMap_append]
  · intro block hblock
    rcases List.mem_append.mp hblock with hblock | hblock
    · exact h.full block hblock
    · exact h'.full block hblock
  · rw [List.filter_append, ← List.append_assoc, h.groups, List.append_assoc, h'.groups,
      List.map_append, List.flatten_append, List.append_assoc]

end Course

theorem Ends.append {settings : BatchSettings} {blocks blocks' : List Block}
    {answer : Except Fault Unit} (h : Ends settings blocks (.ok ()))
    (h' : Ends settings blocks' answer) : Ends settings (blocks ++ blocks') answer := by
  generalize hok : (Except.ok () : Except Fault Unit) = ok at h
  induction h with
  | none => exact h'
  | stop => cases hok
  | goOn hverdict _ ih => exact .goOn hverdict (ih hok)

namespace Course

variable {c : Course} {p p' p'' : Progress} {waiting waiting' : List Statement}
  {first second : List Statement} {blocks blocks' : List Block}

theorem Arrives.append (h : c.Arrives p first blocks waiting p')
    (h' : c.Arrives p' second blocks' waiting' p'') :
    c.Arrives p (first ++ second) (blocks ++ blocks') waiting' p'' := by
  constructor
  · exact h.goesOn.append h'.goesOn
  · exact h'.room
  · -- What waits in between plays no part in what is noted.
    have hnone : (blocks.foldl (Block.note c.batches) p.batches.emptied).pending = [] :=
      pending_foldl_note blocks p.batches.emptied
    have hempty : p'.batches.emptied = blocks.foldl (Block.note c.batches) p.batches.emptied := by
      rw [h.batches]
      exact Batches.emptied_of_pending hnone
    rw [h'.batches, hempty, List.foldl_append]
  · rw [h'.skipped, h.skipped, List.filter_append, List.length_append, Nat.add_assoc]

/-- Behind a statement. -/
theorem dialogue_take {position : Nat} {statement : Statement} {result : Except Fault Progress}
    (hroom : p.batches.pending.length < c.batches.size)
    (h : (c.take position p statement).run.Dialogue host s talk result s') :
    ∃ blocks waiting, c.Fills p.batches.pending [statement] talk blocks waiting ∧
      ((∃ p', result = .ok p' ∧ c.Arrives p [statement] blocks waiting p') ∨
        ∃ fault, result = .error fault ∧ waiting = [] ∧
          Ends c.batches blocks (.error fault)) := by
  rw [take] at h
  dsimp only at h
  split at h
  · next hpasses =>
    obtain ⟨rfl, rfl, -⟩ := h
    have hdrops : c.drops statement = true := hpasses
    have hkeeps : c.keeps statement = false := by rw [keeps, hdrops, Bool.not_true]
    refine ⟨[], p.batches.pending, ⟨rfl, by simp, by simp [hkeeps]⟩, .inl ⟨_, rfl, .none, hroom,
      rfl, by simp [hdrops]⟩⟩
  next hpasses =>
  have hdrops : c.drops statement = false := by simpa [drops] using hpasses
  have hkeeps : c.keeps statement = true := by rw [keeps, hdrops, Bool.not_false]
  obtain ⟨pushed, ⟨answer, batches⟩, t, rest, rfl, hpush, hrest⟩ :=
    Work.dialogue_ofJob_bind.mp h
  have hfault : ∀ fault, answer = .error fault → rest = [] ∧ result = .error fault := by
    rintro fault rfl
    obtain ⟨rfl, rfl, -⟩ := hrest
    exact ⟨rfl, rfl⟩
  -- The report, if there is one, changes nothing.
  have hgoesOn : answer = .ok () → transacted rest = [] ∧ ∃ p', result = .ok p' ∧
      p'.batches = batches ∧ p'.skipped = p.skipped := by
    rintro rfl
    dsimp only at hrest
    rw [Work.ofResult_bind] at hrest
    split at hrest
    · obtain ⟨u, nothing, hsame, rfl, rfl, -⟩ := dialogue_report_bind hrest
      exact ⟨hsame, _, rfl, rfl, rfl⟩
    · obtain ⟨rfl, rfl, -⟩ := hrest
      exact ⟨rfl, _, rfl, rfl, rfl⟩
  rcases dialogue_push hroom hpush with
    ⟨hsmall, rfl, rfl, rfl⟩ | ⟨block, hgroup, hlength, rfl, rfl, rfl⟩
  · obtain ⟨hrest, p', hresult, hbatches, hskipped⟩ := hgoesOn rfl
    refine ⟨[], p.batches.pending ++ [statement], ⟨hrest, by simp, by simp [hkeeps]⟩,
      .inl ⟨p', hresult, .none, by simpa using hsmall, hbatches, by simp [hskipped, hdrops]⟩⟩
  · have hfills : transacted rest = [] → c.Fills p.batches.pending [statement]
        (block.talk c.batches.session ++ rest) [block] [] := by
      intro hrest
      refine ⟨?_, by simpa using hlength, by simp [hkeeps, hgroup]⟩
      rw [transacted_append, transacted_talk, hrest]
      simp
    cases hverdict : block.verdict c.batches with
    | error fault =>
      obtain ⟨rfl, rfl⟩ := hfault fault hverdict
      exact ⟨[block], [], hfills rfl, .inr ⟨fault, rfl, rfl, .stop hverdict⟩⟩
    | ok _ =>
      obtain ⟨hrest, p', hresult, hbatches, hskipped⟩ := hgoesOn hverdict
      refine ⟨[block], [], hfills hrest, .inl ⟨p', hresult, .goOn hverdict .none,
        c.batches.size_pos, ?_, by simp [hskipped, hdrops]⟩⟩
      have hnone : (block.note c.batches p.batches.emptied).pending = [] :=
        block.pending_note p.batches.emptied
      rw [hbatches, List.foldl_cons, List.foldl_nil]
      exact (Batches.emptied_of_pending hnone).symm

/-- Before anything is loaded. -/
theorem arrives_refl (hroom : p.batches.pending.length < c.batches.size) :
    c.Arrives p [] [] p.batches.pending p :=
  ⟨.none, hroom, rfl, by simp⟩

/-- Behind all that a scanner has left, or up to what ends the load. The statements that a group
still waits for are not executed if the scanner stops with a fault. -/
theorem dialogue_loadAll {sc : Scanner} {result : Except Fault (Scanner × Progress)}
    (hroom : p.batches.pending.length < c.batches.size)
    (h : (c.loadAll sc p).run.Dialogue host s talk result s') :
    ∃ blocks waiting reached beyond, sc.statements = reached ++ beyond ∧
      c.Fills p.batches.pending reached talk blocks waiting ∧
      ((∃ fault, result = .error fault ∧ waiting = [] ∧ Ends c.batches blocks (.error fault)) ∨
        beyond = [] ∧ ∃ p', c.Arrives p reached blocks waiting p' ∧
          ((∃ fault, sc.fault? = some fault ∧ result = .error fault) ∨
            sc.fault? = none ∧ ∃ sc', result = .ok (sc', p'))) := by
  fun_induction loadAll c sc p generalizing s talk with
  | case1 sc p sc' fault called =>
    obtain ⟨rfl, rfl, -⟩ := h
    obtain ⟨hstatements, hfault⟩ := Scanner.statements_of_last called (by simp)
    exact ⟨[], p.batches.pending, [], [], hstatements, ⟨rfl, by simp, by simp⟩,
      .inr ⟨rfl, p, arrives_refl hroom, .inl ⟨fault, hfault, rfl⟩⟩⟩
  | case2 sc p sc' called =>
    obtain ⟨rfl, rfl, -⟩ := h
    obtain ⟨hstatements, hfault⟩ := Scanner.statements_of_last called (by simp)
    exact ⟨[], p.batches.pending, [], [], hstatements, ⟨rfl, by simp, by simp⟩,
      .inr ⟨rfl, p, arrives_refl hroom, .inr ⟨hfault, sc', rfl⟩⟩⟩
  | case3 sc p sc' statement called ih =>
    obtain ⟨hstatements, hfault⟩ := Scanner.statements_of_statement called
    rcases Work.dialogue_bind.mp h with
      ⟨fault, rfl, htake⟩ | ⟨first, p₁, t, second, rfl, htake, hrest⟩
    · obtain ⟨blocks, waiting, hfills, ⟨p', hok, -⟩ | ⟨fault', hsame, hnone, hends⟩⟩ :=
        dialogue_take hroom htake
      · cases hok
      · cases hsame
        exact ⟨blocks, waiting, [statement], sc'.statements, hstatements, hfills,
          .inl ⟨fault, rfl, hnone, hends⟩⟩
    · obtain ⟨blocks, waiting, hfills, ⟨p', hok, harrives⟩ | ⟨fault, hno, -⟩⟩ :=
        dialogue_take hroom htake
      · cases hok
        have hwaits : p₁.batches.pending = waiting := by rw [harrives.batches]
        obtain ⟨blocks', waiting', reached, beyond, hsplit, hfills', hend⟩ :=
          ih p₁ (hwaits ▸ harrives.room) hrest
        rw [hwaits] at hfills'
        refine ⟨blocks ++ blocks', waiting', statement :: reached, beyond, ?_,
          hfills.append hfills', ?_⟩
        · rw [hstatements, hsplit, List.cons_append]
        rw [hfault]
        rcases hend with ⟨fault, hresult, hnone, hends⟩ | ⟨hbeyond, p', harrives', hend⟩
        · exact .inl ⟨fault, hresult, hnone, harrives.goesOn.append hends⟩
        · exact .inr ⟨hbeyond, p', harrives.append harrives', hend⟩
      · cases hno

end Course

end Load

end SqlBackup
