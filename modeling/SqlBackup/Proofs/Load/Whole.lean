import Mathlib
import SqlBackup.Proofs.Job.Moments
import SqlBackup.Proofs.Load.Requests

/-!
# What a load executes

Before a load of a plain dump executes its first statement it looks at the dump, makes its database
the current one, switches the checks off and opens the dump. None of that is said inside a
transaction, nor is what puts the checks back. What is opened does not depend on how the statements
are put into groups.

A load executes the statements of its dump from the first on, each at most once. What it leaves out
up to the point where a fault ends it is passed over, or stands behind the failure of its group. If
no fault ends it, every statement is counted, and if none failed at all, it does not matter how many
statements a group has.
-/
namespace SqlBackup

/-- A job has one dialogue with a host from a state on. -/
theorem Job.Dialogue.value_unique {σ α : Type} {host : Host σ} {job : Job α} {s t t' : σ}
    {talk talk' : List Exchange} {a a' : α} (h : job.Dialogue host s talk a t)
    (h' : job.Dialogue host s talk' a' t') : a = a' := by
  have hsame := h.run.1.symm.trans h'.run.1
  exact Except.ok.inj hsame

namespace Load

/-- All that a load of a plain dump does before its first statement. -/
def opening (session : Session) (options : Options) :
    Work (Dump.Format × (Option Nat × Source)) := do
  let format ← Dump.detect options.path options.compression
  openDatabase session options format
  let saved ← readChecks session Sql.constraintVariables
  switchOff session (saved.map Prod.fst)
  let opened ← openSource options format
  pure (format, opened)

/-- From this state on, a load opens this much of a dump. -/
def Opens {σ : Type} (host : Host σ) (session : Session) (options : Options) (s : σ)
    (opened : Dump.Format × (Option Nat × Source)) : Prop :=
  ∃ talk t, (opening session options).run.Dialogue host s talk (.ok opened) t

variable {σ : Type} {host : Host σ} {session : Session} {options : Options} {s s' : σ}
  {talk : List Exchange}

theorem Opens.unique {opened opened' : Dump.Format × (Option Nat × Source)}
    (h : Opens host session options s opened) (h' : Opens host session options s opened') :
    opened = opened' := by
  obtain ⟨_, _, h⟩ := h
  obtain ⟨_, _, h'⟩ := h'
  exact Except.ok.inj (h.value_unique h')

/-- What a load was told of the file of its dump, and what it made of it. -/
structure Fetched (options : Options) (talk : List Exchange) (content : Files.Content)
    (opened : Dump.Format × (Option Nat × Source)) : Prop where
  read : ⟨.file (.read options.path), .ok content⟩ ∈ talk
  /-- Nothing in front of the offset is part of the text. -/
  text : Codec.Draws (content.behind options.resumeOffset) opened.1.compression opened.2.2
  length : if opened.1.compression.isCompressed then opened.2.1 = none
    else ∃ n, opened.2.1 = some n ∧ ⟨.file (.size options.path), .ok n⟩ ∈ talk

/-- From this state on, a load reads this of the file of its dump and opens this much. -/
def OpensFrom {σ : Type} (host : Host σ) (session : Session) (options : Options) (s : σ)
    (content : Files.Content) (opened : Dump.Format × (Option Nat × Source)) : Prop :=
  ∃ talk t, (opening session options).run.Dialogue host s talk (.ok opened) t ∧
    Fetched options talk content opened

theorem fetched_of_openSource {format : Dump.Format} {opened : Option Nat × Source}
    (h : (openSource options format).run.Dialogue host s talk (.ok opened) s') :
    ∃ content, Fetched options talk content (format, opened) := by
  rw [openSource] at h
  obtain ⟨_, content, t, rest, rfl, hread, h⟩ := Work.dialogue_bind_ok h
  have hasked := (Job.dialogue_request.mp (Work.dialogue_ofExcept_ok hread)).2.1
  have hcontent (rest : List Exchange) : (⟨.file (.read options.path), .ok content⟩ : Exchange) ∈
      ([⟨.file (.read options.path), .ok content⟩] : List Exchange) ++ rest :=
    List.mem_append_left _ (List.mem_singleton_self _)
  have htext {totalBytes : Option Nat} {u : σ} {later : List Exchange} (h : (do
      let codec ← Codec.choose format.compression options.external
      let demand := Codec.Demand.buffered (Sizing.bufferSize totalBytes)
      let source ← codec.read demand (content.behind options.resumeOffset)
      pure (totalBytes, source) : Work (Option Nat × Source)).run.Dialogue host u later
        (.ok opened) s') : opened.1 = totalBytes ∧
          Codec.Draws (content.behind options.resumeOffset) format.compression opened.2 := by
    obtain ⟨_, codec, v, _, -, hchoose, h⟩ := Work.dialogue_bind_ok h
    obtain ⟨_, source, w, _, -, hsource, -, hopened, -⟩ := Work.dialogue_bind_ok h
    cases hopened
    have hcodec := Job.Asks.run (@Codec.asks_choose (fun _ => True)
      (fun _ _ => trivial) format.compression options.external) hchoose.run.1 codec rfl
    exact ⟨rfl, Job.Asks.run (@Codec.asks_read (fun _ => True) (fun _ _ => trivial) _ _
      hcodec _ _) hsource.run.1 source rfl⟩
  rw [hasked]
  dsimp only at h
  split at h
  · next hcompressed =>
    obtain ⟨hlength, hdraws⟩ := htext h
    exact ⟨content, hcontent rest, hdraws, by rw [if_pos hcompressed, hlength]⟩
  · next hplain =>
    obtain ⟨_, totalBytes, u, later, rfl, htotal, h⟩ := Work.dialogue_bind_ok h
    obtain ⟨_, n, v, _, rfl, hsize, hnone, hsame, -⟩ := Work.dialogue_bind_ok htotal
    cases hsame
    obtain ⟨hlength, hdraws⟩ := htext h
    have hasked := (Job.dialogue_request.mp (Work.dialogue_ofExcept_ok hsize)).2.1
    refine ⟨content, hcontent _, hdraws, ?_⟩
    rw [if_neg hplain]
    exact ⟨n, hlength, by simp [hasked]⟩

/-- What is opened has been made of what was read. -/
theorem exists_opensFrom {opened : Dump.Format × (Option Nat × Source)}
    (h : Opens host session options s opened) :
    ∃ content, OpensFrom host session options s content opened := by
  obtain ⟨talk, s', htalk⟩ := h
  have hopening := htalk
  rw [opening] at hopening
  obtain ⟨_, format, t, _, rfl, -, hopening⟩ := Work.dialogue_bind_ok hopening
  obtain ⟨_, _, u, _, rfl, -, hopening⟩ := Work.dialogue_bind_ok hopening
  obtain ⟨_, saved, v, _, rfl, -, hopening⟩ := Work.dialogue_bind_ok hopening
  obtain ⟨_, _, w, _, rfl, -, hopening⟩ := Work.dialogue_bind_ok hopening
  obtain ⟨_, source, x, _, rfl, hsource, rfl, hopened, -⟩ := Work.dialogue_bind_ok hopening
  cases hopened
  obtain ⟨content, hread, htext, hlength⟩ := fetched_of_openSource hsource
  refine ⟨content, _, _, htalk, ?_, htext, ?_⟩
  · simp [hread]
  · split at hlength
    · next hcompressed => exact (if_pos hcompressed).mpr hlength
    · next hplain =>
      obtain ⟨n, hn, hsize⟩ := hlength
      exact (if_neg hplain).mpr ⟨n, hn, by simp [hsize]⟩

/-- The text of a dump that is not compressed is its file, from the offset on that the load starts
from, as far as the file can be read. -/
theorem OpensFrom.source_eq {content : Files.Content} {format : Dump.Format}
    {totalBytes : Option Nat} {source : Source}
    (h : OpensFrom host session options s content (format, totalBytes, source))
    (hnone : format.compression = .none) :
    source = ⟨content.bytes.drop options.resumeOffset, content.failure.map .plain⟩ := by
  obtain ⟨_, _, -, hfetched⟩ := h
  have htext := hfetched.text
  rw [hnone] at htext
  cases htext with
  | plain => rfl
  | program _ _ hno => exact absurd rfl hno

/-! ### Nothing about transactions -/

/-- Requests that are not about a transaction. -/
def Quiet (request : Request) : Prop := request.transacts = false

theorem quiet_of_isOpening {database : String} {request : Request}
    (h : IsOpening session database request) : Quiet request := by
  rcases h with ⟨call, rfl⟩ | rfl | rfl <;> rfl

theorem transacted_of_opening {α : Type} {work : Work α} {database : String}
    {result : Except Fault α} (hwork : work.Asks (IsOpening session database) fun _ => True)
    (h : work.run.Dialogue host s talk result s') : transacted talk = [] :=
  transacted_of_asks (fun _ => quiet_of_isOpening) hwork h

theorem quiet_query (session : Session) (sql : String) :
    Quiet (.session session (.query sql)) := rfl

theorem quiet_set (session : Session) (name literal : String) :
    Quiet (.session session (.execute (Sql.setVariable name literal))) := rfl

theorem quiet_file (call : Files.Call) : Quiet (.file call) := rfl

theorem quiet_program (call : Programs.Call) : Quiet (.program call) := rfl

/-! ### The dump -/

/-- What a load says that gets no further than this, or what follows what it opened. -/
def Follows (host : Host σ) (session : Session) (opening : Work (Dump.Format × (Option Nat × Source)))
    (options : Options) (s : σ) (talk : List Exchange) (result : Except Fault Stats) : Prop :=
  (∃ first fault t fault', opening.run.Dialogue host s first (.error fault) t ∧
    transacted talk = [] ∧ result = .error fault') ∨
  ∃ first opened t, opening.run.Dialogue host s first (.ok opened) t ∧
    ∃ inside outcome refusal t',
      (loadSource session options opened.1 opened.2).run.Dialogue host t inside outcome t' ∧
      transacted talk = transacted inside ∧ result = settle outcome refusal

/-- Work that ends before anything is opened. -/
theorem Follows.of_error {α : Type} {work : Work α}
    {f : α → Work (Dump.Format × (Option Nat × Source))} {result : Except Fault Stats}
    {first : List Exchange} {fault fault' : Fault}
    (hwork : work.run.Dialogue host s first (.error fault) s') (htalk : transacted talk = [])
    (hresult : result = .error fault') :
    Follows host session (work >>= f) options s talk result :=
  .inl ⟨first, fault, s', fault', Work.dialogue_bind.mpr (.inl ⟨fault, rfl, hwork⟩), htalk, hresult⟩

/-- Work that goes before. -/
theorem Follows.bind {α : Type} {work : Work α} {a : α}
    {f : α → Work (Dump.Format × (Option Nat × Source))} {result : Except Fault Stats}
    {first rest : List Exchange} (hwork : work.run.Dialogue host s first (.ok a) s')
    (htalk : transacted first = [])
    (h : Follows host session (f a) options s' rest result) :
    Follows host session (work >>= f) options s (first ++ rest) result := by
  rcases h with ⟨later, fault, t, fault', hf, hrest, hresult⟩ |
    ⟨later, opened, t, hf, inside, outcome, refusal, t', hinside, hrest, hresult⟩
  · refine .inl ⟨first ++ later, fault, t, fault', ?_, ?_, hresult⟩
    · exact Work.dialogue_bind.mpr (.inr ⟨first, a, s', later, rfl, hwork, hf⟩)
    · rw [transacted_append, htalk, hrest]
      rfl
  · refine .inr ⟨first ++ later, opened, t, ?_, inside, outcome, refusal, t', hinside, ?_, hresult⟩
    · exact Work.dialogue_bind.mpr (.inr ⟨first, a, s', later, rfl, hwork, hf⟩)
    · rw [transacted_append, htalk, hrest]
      rfl

/-- Behind what is opened, all that is said about transactions belongs to the statements. -/
theorem follows_of_dump
    (hplain : ∀ format talk t, (Dump.detect options.path options.compression).run.Dialogue host s
      talk (.ok format) t → format.kind = .plain)
    {result : Except Fault Stats} (h : (dump session options).run.Dialogue host s talk result s') :
    Follows host session (opening session options) options s talk result := by
  rw [dump_eq] at h
  rw [opening]
  have hquiet := asks_detect session options.database options.path options.compression
  rcases Work.dialogue_bind.mp h with ⟨fault, rfl, hdetect⟩ | ⟨first, format, t, rest, rfl, hdetect, h⟩
  · exact .of_error hdetect (transacted_of_opening hquiet hdetect) rfl
  refine .bind hdetect (transacted_of_opening hquiet hdetect) ?_
  rw [hplain format first t hdetect] at h
  have hquiet := @asks_openDatabase (IsOpening session options.database) session options format
    (.inr (.inl rfl)) (.inr (.inr rfl))
  rcases Work.dialogue_bind.mp h with ⟨fault, rfl, hopen⟩ | ⟨first, _, t, rest, rfl, hopen, h⟩
  · exact .of_error hopen (transacted_of_opening hquiet hopen) rfl
  refine .bind hopen (transacted_of_opening hquiet hopen) ?_
  have hquiet := asks_readChecks (quiet_query session) Sql.constraintVariables
  rcases dialogue_withoutChecks_parts h with ⟨fault, rfl, hread⟩ |
    ⟨saving, saved, t, inside, outcome, t', back, refusal, rfl, hread, hinside, hback, rfl⟩
  · exact .of_error hread (transacted_of_asks (fun _ => id) hquiet hread) rfl
  rw [List.append_assoc]
  refine .bind hread (transacted_of_asks (fun _ => id) hquiet hread) ?_
  have hback : transacted back = [] :=
    transacted_of_asks (fun _ => id) (asks_putBack (quiet_set session) saved) hback
  have hbehind (talk : List Exchange) : transacted (talk ++ back) = transacted talk := by
    rw [transacted_append, hback, List.append_nil]
  have hquiet := asks_switchOff (quiet_set session) (saved.map Prod.fst)
  rcases Work.dialogue_bind.mp hinside with
    ⟨fault, rfl, hswitch⟩ | ⟨first, _, u, inside, rfl, hswitch, hload⟩
  · refine .of_error hswitch ?_ rfl
    rw [hbehind, transacted_of_asks (fun _ => id) hquiet hswitch]
  rw [List.append_assoc]
  refine .bind hswitch (transacted_of_asks (fun _ => id) hquiet hswitch) ?_
  rw [loadStatements_eq] at hload
  have hquiet := asks_openSource options format (fun call _ => quiet_file call)
    fun call _ => quiet_program call
  rcases Work.dialogue_bind.mp hload with
    ⟨fault, rfl, hsource⟩ | ⟨first, opened, v, inside, rfl, hsource, hload⟩
  · refine .of_error hsource ?_ rfl
    rw [hbehind, transacted_of_asks (fun _ => id) hquiet hsource]
  rw [List.append_assoc]
  refine .bind hsource (transacted_of_asks (fun _ => id) hquiet hsource) ?_
  exact .inr ⟨[], (format, opened), v, ⟨rfl, rfl, rfl⟩, inside, outcome, refusal, t', hload,
    hbehind inside, rfl⟩

/-- A load that opens nothing executes nothing and fails. -/
theorem silent_of_not_opens
    (hplain : ∀ format talk t, (Dump.detect options.path options.compression).run.Dialogue host s
      talk (.ok format) t → format.kind = .plain)
    {result : Except Fault Stats} (h : (dump session options).run.Dialogue host s talk result s')
    (hnone : ∀ opened, ¬ Opens host session options s opened) :
    transacted talk = [] ∧ ∃ fault, result = .error fault := by
  rcases follows_of_dump hplain h with ⟨first, fault, t, fault', -, htalk, hresult⟩ |
    ⟨first, opened, t, hopening, -⟩
  · exact ⟨htalk, fault', hresult⟩
  · exact (hnone opened ⟨first, t, hopening⟩).elim

/-- A load that opens a dump is the load of its statements. If nothing goes wrong in that, it can
still fail to put the checks back. -/
theorem loaded_of_opens
    (hplain : ∀ format talk t, (Dump.detect options.path options.compression).run.Dialogue host s
      talk (.ok format) t → format.kind = .plain)
    {result : Except Fault Stats} (h : (dump session options).run.Dialogue host s talk result s')
    {opened : Dump.Format × (Option Nat × Source)} (hopens : Opens host session options s opened) :
    ∃ outcome refusal blocks, result = settle outcome refusal ∧
      Loaded (options.course session opened.2.1) (options.scanner opened.2.2) talk outcome
        blocks := by
  obtain ⟨talk', t', hopening⟩ := hopens
  rcases follows_of_dump hplain h with ⟨first, fault, t, fault', hfails, -⟩ |
    ⟨first, opened', t, hopening', inside, outcome, refusal, u, hinside, htalk, hresult⟩
  · exact absurd (hopening.value_unique hfails) (by simp)
  · cases hopening.value_unique hopening'
    obtain ⟨blocks, hloaded⟩ := dialogue_loadSource hinside
    exact ⟨outcome, refusal, blocks, hresult, htalk.trans hloaded.talk_eq, hloaded.groups,
      hloaded.full, hloaded.ending⟩

end Load

end SqlBackup

namespace SqlBackup.Load

variable {σ : Type} {host : Host σ} {s s' : σ} {talk : List Exchange}

namespace Block

/-- The statements that are executed for a group, the one that fails included. -/
def handed : Block → List Statement
  | committed group => group
  | rolledBack done failed _ _ _ => done ++ [failed]
  | uncommitted group _ => group
  | unopened _ _ => []

/-- The statements behind the one that failed. -/
def behind : Block → List Statement
  | rolledBack _ _ rest _ _ => rest
  | _ => []

/-- The statements of a group that was not committed. -/
def lost : Block → List Statement
  | committed _ => []
  | block => block.group

/-- The statements of a group whose transaction was opened. -/
def entered (block : Block) : List Statement := block.handed ++ block.behind

theorem entered_eq (block : Block) : block.entered = block.group ∨ ∃ group cause,
    block = unopened group cause := by
  cases block with
  | unopened group cause => exact .inr ⟨group, cause, rfl⟩
  | committed group => exact .inl (List.append_nil group)
  | uncommitted group cause => exact .inl (List.append_nil group)
  | rolledBack done failed rest cause answer =>
    left
    simp [entered, handed, behind, group]

theorem inside_talk_eq (session : Session) (block : Block) :
    (block.talk session).filterMap Exchange.inside? = block.handed.map (·.sql) := by
  cases block with
  | unopened group cause => rfl
  | committed group =>
    simp [talk, List.filterMap_cons, filterMap_inside_executed, Exchange.inside?, handed]
  | uncommitted group cause =>
    simp [talk, List.filterMap_cons, filterMap_inside_executed, Exchange.inside?, handed]
  | rolledBack done failed rest cause answer =>
    simp [talk, List.filterMap_cons, filterMap_inside_executed, Exchange.inside?, handed]

theorem length_group (block : Block) :
    block.group.length =
      (([block].filterMap committed?).map List.length).sum + block.lost.length := by
  cases block with
  | committed group => simp [committed?, lost, Block.group]
  | unopened group cause => simp [committed?, lost, List.filterMap_cons]
  | uncommitted group cause => simp [committed?, lost, List.filterMap_cons]
  | rolledBack done failed rest cause answer => simp [committed?, lost, List.filterMap_cons]

end Block

section Blocks

variable {settings : BatchSettings} {blocks : List Block} {answer : Except Fault Unit}

theorem inside_flatMap (session : Session) (blocks : List Block) :
    (blocks.flatMap (Block.talk session)).filterMap Exchange.inside? =
      (blocks.flatMap Block.handed).map (·.sql) := by
  induction blocks with
  | nil => rfl
  | cons block blocks ih =>
    rw [List.flatMap_cons, List.filterMap_append, Block.inside_talk_eq, ih, List.flatMap_cons,
      List.map_append]

/-- Statements are executed in transactions only. -/
theorem inside_transacted (talk : List Exchange) :
    (transacted talk).filterMap Exchange.inside? = talk.filterMap Exchange.inside? := by
  induction talk with
  | nil => rfl
  | cons exchange talk ih =>
    by_cases h : exchange.request.transacts = true
    · simp only [transacted, List.filter_cons, h, if_true, List.filterMap_cons] at ih ⊢
      rw [ih]
    · have hnone : Exchange.inside? exchange = none := by
        obtain ⟨request, reply⟩ := exchange
        cases request with
        | session session call =>
          cases call with
          | executeInside sql => exact absurd rfl h
          | _ => rfl
        | _ => rfl
      simp only [transacted, List.filter_cons, h, List.filterMap_cons, hnone] at ih ⊢
      exact ih

/-- Only the last group can be one whose transaction was not opened. -/
theorem Ends.entered_prefix (h : Ends settings blocks answer) :
    blocks.flatMap Block.entered <+: (blocks.map Block.group).flatten := by
  induction h with
  | none => exact List.prefix_rfl
  | @stop block fault _ =>
    rw [List.flatMap_singleton, List.map_singleton, List.flatten_singleton]
    rcases block.entered_eq with hgroup | ⟨group, cause, rfl⟩
    · rw [hgroup]
    · exact List.nil_prefix
  | @goOn block blocks answer hverdict _ ih =>
    rcases block.entered_eq with hgroup | ⟨group, cause, rfl⟩
    · rw [List.flatMap_cons, List.map_cons, List.flatten_cons, hgroup]
      exact (List.prefix_append_right_inj block.group).mpr ih
    · cases hverdict

/-- Where the load goes on after all groups, all transactions were opened. -/
theorem Ends.entered_eq (h : Ends settings blocks (.ok ())) :
    blocks.flatMap Block.entered = (blocks.map Block.group).flatten := by
  generalize hok : (Except.ok () : Except Fault Unit) = ok at h
  induction h with
  | none => rfl
  | stop => cases hok
  | @goOn block blocks answer hverdict _ ih =>
    rcases block.entered_eq with hgroup | ⟨group, cause, rfl⟩
    · rw [List.flatMap_cons, List.map_cons, List.flatten_cons, hgroup, ih hok]
    · cases hverdict

theorem handed_sublist (blocks : List Block) :
    (blocks.flatMap Block.handed).Sublist (blocks.flatMap Block.entered) := by
  induction blocks with
  | nil => exact List.Sublist.refl _
  | cons block blocks ih => exact (List.sublist_append_left _ _).append ih

theorem length_flatten_groups (blocks : List Block) :
    (blocks.map Block.group).flatten.length =
      ((blocks.filterMap Block.committed?).map List.length).sum +
        (blocks.flatMap Block.lost).length := by
  induction blocks with
  | nil => rfl
  | cons block blocks ih =>
    have hsplit : block :: blocks = [block] ++ blocks := rfl
    rw [List.map_cons, List.flatten_cons, List.length_append, ih, block.length_group, hsplit,
      List.filterMap_append, List.map_append, List.sum_append, List.flatMap_append,
      List.length_append, List.flatMap_singleton]
    omega

/-- The load goes on after a group that is committed or whose fault the policy passes over. -/
theorem Block.eq_committed_of_verdict {block : Block} (h : block.verdict settings = .ok ())
    (hnone : passedOver settings [block] = []) : ∃ group, block = .committed group := by
  have hpasses (fault : StatementFault) (hfault : block.answer settings.database = .ok (some fault))
      (hmem : [block].filterMap (Block.fault? settings.database) = [fault]) : False := by
    rw [verdict, hfault] at h
    rw [passedOver, hmem] at hnone
    cases hpolicy : settings.policy fault with
    | proceed => simp [hpolicy] at hnone
    | abort => simp [hpolicy] at h
  cases block with
  | committed group => exact ⟨group, rfl⟩
  | unopened group cause => cases h
  | rolledBack done failed rest cause answer => exact (hpasses _ rfl rfl).elim
  | uncommitted group cause => exact (hpasses _ rfl rfl).elim

/-- If the load goes on after all groups and notes no fault, all of them are committed. -/
theorem Ends.handed_eq (h : Ends settings blocks (.ok ()))
    (hnone : passedOver settings blocks = []) :
    blocks.flatMap Block.handed = (blocks.map Block.group).flatten ∧
      blocks.flatMap Block.lost = [] := by
  generalize hok : (Except.ok () : Except Fault Unit) = ok at h
  induction h with
  | none => exact ⟨rfl, rfl⟩
  | stop => cases hok
  | @goOn block blocks answer hverdict _ ih =>
    have hsplit : passedOver settings (block :: blocks) =
        passedOver settings [block] ++ passedOver settings blocks := by
      rw [passedOver, passedOver, passedOver, ← List.filter_append, ← List.filterMap_append]
      rfl
    rw [hsplit, List.append_eq_nil_iff] at hnone
    obtain ⟨hhanded, hlost⟩ := ih hnone.2 hok
    obtain ⟨group, rfl⟩ := Block.eq_committed_of_verdict hverdict hnone.1
    rw [List.flatMap_cons, List.map_cons, List.flatten_cons, hhanded, List.flatMap_cons, hlost]
    exact ⟨rfl, rfl⟩

end Blocks

/-! ### Every statement accounted for -/

/-- What became of the statements of a dump. -/
structure Accounted (c : Course) (statements : List Statement) (talk : List Exchange)
    (outcome : Except Fault Stats) (blocks : List Block) : Prop where
  /-- These statements are executed, and no others. -/
  executed : talk.filterMap Exchange.inside? = (blocks.flatMap Block.handed).map (·.sql)
  /-- They are statements of the dump, in their order, and none is executed twice. -/
  once : (blocks.flatMap Block.handed).Sublist statements
  /-- Up to some point a statement is passed over, executed, or behind the failure of its group.
  That point is the end of the dump unless a fault ends the load. -/
  reached : ∃ reached beyond, statements = reached ++ beyond ∧
    reached.filter c.keeps = blocks.flatMap Block.entered ∧
    ∀ stats, outcome = .ok stats → beyond = []
  /-- If no fault ends the load, its counts add up. -/
  counted : ∀ stats, outcome = .ok stats →
    stats.executed + stats.skipped + (blocks.flatMap Block.lost).length = statements.length
  /-- If no statement failed either, all that is not passed over is executed. -/
  allExecuted : ∀ stats, outcome = .ok stats → stats.errors = [] →
    talk.filterMap Exchange.inside? = (statements.filter c.keeps).map (·.sql) ∧
      stats.executed = (statements.filter c.keeps).length

theorem Loaded.accounted {c : Course} {sc : Scanner} {outcome : Except Fault Stats}
    {blocks : List Block} (h : Loaded c sc talk outcome blocks) :
    Accounted c sc.statements talk outcome blocks := by
  have hexecuted : talk.filterMap Exchange.inside? = (blocks.flatMap Block.handed).map (·.sql) := by
    rw [← inside_transacted, h.talk_eq, inside_flatMap]
  have hentered : blocks.flatMap Block.entered <+: sc.statements.filter c.keeps := by
    have hprefix := flatten_groups h.groups
    cases h.ending with
    | stopped hends => exact hends.entered_prefix.trans hprefix
    | broken hends => exact hends.entered_prefix.trans hprefix
    | complete hends => exact hends.entered_prefix.trans hprefix
  have hsplit : sc.statements.length =
      (sc.statements.filter c.keeps).length + (sc.statements.filter c.drops).length := by
    have hdrops : c.drops = fun statement => !c.keeps statement := by
      funext statement
      rw [Course.keeps, Bool.not_not]
    rw [hdrops]
    exact List.length_eq_length_filter_add c.keeps
  refine ⟨hexecuted, ?_, ?_, ?_, ?_⟩
  · exact (handed_sublist blocks).trans (hentered.sublist.trans List.filter_sublist)
  · cases houtcome : outcome with
    | error fault =>
      obtain ⟨rest, hrest⟩ := hentered
      obtain ⟨reached, beyond, hstatements, hreached, -⟩ := List.filter_eq_append_iff.mp hrest.symm
      refine ⟨reached, beyond, hstatements, hreached, fun stats hno => ?_⟩
      cases hno
    | ok stats =>
      subst houtcome
      cases h.ending with
      | complete hends _ hall =>
        refine ⟨sc.statements, [], (List.append_nil _).symm, ?_, fun _ _ => rfl⟩
        rw [hall, hends.entered_eq]
  · rintro stats rfl
    cases h.ending with
    | complete hends _ hall hcount hskipped =>
      have hlength := congrArg List.length hall
      rw [length_flatten_groups] at hlength
      omega
  · rintro stats rfl hnone
    cases h.ending with
    | complete hends _ hall hcount hskipped herrors =>
      obtain ⟨hhanded, hlost⟩ := hends.handed_eq (herrors.symm.trans hnone)
      refine ⟨by rw [hexecuted, hhanded, hall], ?_⟩
      have hlength := congrArg List.length hall
      rw [length_flatten_groups, hlost, List.length_nil, Nat.add_zero] at hlength
      rw [hcount, hlength]

theorem settle_eq_ok {α : Type} {outcome : Except Fault α} {refusal : Option SessionFault} {a : α}
    (h : settle outcome refusal = .ok a) : outcome = .ok a := by
  cases outcome with
  | error fault => cases h
  | ok value =>
    cases refusal with
    | none => exact h
    | some cause => cases h

section Dump

variable {session : Session} {options : Options}

/-- A load that notes no fault executes all statements but those passed over. -/
theorem executed_of_noFault {stats : Stats}
    (h : (dump session options).run.Dialogue host s talk (.ok stats) s')
    (hplain : ∀ format talk t, (Dump.detect options.path options.compression).run.Dialogue host s
      talk (.ok format) t → format.kind = .plain)
    (hnone : stats.errors = []) :
    ∃ format totalBytes source, Opens host session options s (format, totalBytes, source) ∧
      talk.filterMap Exchange.inside? = ((options.scanner source).statements.filter
        (options.course session totalBytes).keeps).map (·.sql) ∧
      stats.executed = ((options.scanner source).statements.filter
        (options.course session totalBytes).keeps).length := by
  by_cases hopens : ∃ opened, Opens host session options s opened
  · obtain ⟨⟨format, totalBytes, source⟩, hopened⟩ := hopens
    obtain ⟨outcome, refusal, blocks, hresult, hloaded⟩ := loaded_of_opens hplain h hopened
    have houtcome := settle_eq_ok hresult.symm
    exact ⟨format, totalBytes, source, hopened,
      hloaded.accounted.allExecuted stats houtcome hnone⟩
  · rw [not_exists] at hopens
    obtain ⟨-, fault, hno⟩ := silent_of_not_opens hplain h hopens
    cases hno

/-! The size of the groups has no bearing on what is opened, yielded and passed over. -/

variable (session options) (size : Option Nat)

theorem opens_batchSize (opened : Dump.Format × (Option Nat × Source)) :
    Opens host session { options with batchSize := size } s opened =
      Opens host session options s opened := rfl

theorem scanner_batchSize (source : Source) :
    Options.scanner { options with batchSize := size } source = options.scanner source := rfl

theorem keeps_batchSize (totalBytes : Option Nat) :
    (Options.course { options with batchSize := size } session totalBytes).keeps =
      (options.course session none).keeps := rfl

end Dump

/-- What is known of a load of a plain dump that has come to an end: nothing was opened, nothing
executed, and it failed; or the statements of what was opened are accounted for. What was opened is
the text of what was read of the file, behind the offset that the load starts from. -/
def Settled (host : Host σ) (session : Session) (options : Options) (s : σ) (talk : List Exchange)
    (result : Except Fault Stats) : Prop :=
  ((∀ opened, ¬ Opens host session options s opened) ∧ transacted talk = [] ∧
    ∃ fault, result = .error fault) ∨
  ∃ content format totalBytes source,
    OpensFrom host session options s content (format, totalBytes, source) ∧
    (format.compression = .none →
      source = ⟨content.bytes.drop options.resumeOffset, content.failure.map .plain⟩) ∧
    ∃ outcome refusal blocks, result = settle outcome refusal ∧
      Loaded (options.course session totalBytes) (options.scanner source) talk outcome blocks ∧
      Accounted (options.course session totalBytes) (options.scanner source).statements talk
        outcome blocks

/-- Whatever the server answers, the statements of a plain dump are accounted for. The size of the
groups has no bearing on what is executed when nothing fails. -/
theorem settled_of_dump (host : Host σ) (session : Session) (options : Options) (s : σ)
    (hplain : ∀ format talk t, (Dump.detect options.path options.compression).run.Dialogue host s
      talk (.ok format) t → format.kind = .plain) :
    (∀ result, ((dump session options).run.run host s).1.result = .ok result →
      ∃ talk s', (dump session options).run.Dialogue host s talk result s' ∧
        Settled host session options s talk result) ∧
      ∀ size size' talk talk' stats stats' t t',
        (dump session { options with batchSize := size }).run.Dialogue host s talk (.ok stats) t →
        (dump session { options with batchSize := size' }).run.Dialogue host s talk' (.ok stats')
          t' →
        stats.errors = [] → stats'.errors = [] →
        talk.filterMap Exchange.inside? = talk'.filterMap Exchange.inside? ∧
          stats.executed = stats'.executed := by
  constructor
  · intro result h
    obtain ⟨talk, htalk⟩ := Job.exists_dialogue h
    refine ⟨talk, _, htalk, ?_⟩
    by_cases hopens : ∃ opened, Opens host session options s opened
    · obtain ⟨⟨format, totalBytes, source⟩, hopened⟩ := hopens
      obtain ⟨outcome, refusal, blocks, hresult, hloaded⟩ := loaded_of_opens hplain htalk hopened
      obtain ⟨content, hcontent⟩ := exists_opensFrom hopened
      exact .inr ⟨content, format, totalBytes, source, hcontent, hcontent.source_eq, outcome, refusal,
        blocks, hresult, hloaded, hloaded.accounted⟩
    · rw [not_exists] at hopens
      obtain ⟨hsilent, hfault⟩ := silent_of_not_opens hplain htalk hopens
      exact .inl ⟨hopens, hsilent, hfault⟩
  · intro size size' talk talk' stats stats' t t' h h' hnone hnone'
    obtain ⟨format, n, source, hopened, htexts, hcount⟩ := executed_of_noFault h hplain hnone
    obtain ⟨format', n', source', hopened', htexts', hcount'⟩ :=
      executed_of_noFault h' hplain hnone'
    rw [opens_batchSize] at hopened hopened'
    rw [scanner_batchSize, keeps_batchSize] at htexts hcount htexts' hcount'
    cases hopened.unique hopened'
    exact ⟨htexts.trans htexts'.symm, hcount.trans hcount'.symm⟩

/-! ### A dump whose second statement is refused -/

/-- A server that refuses one statement, and a dump with that statement in it. -/
def shelved : Scripted.World :=
  { pickyWorld with files := ⟨[(["dump.sql"], .file (Text.Utf8.encode "a;b;c;d;e"))]⟩ }

/-- The same dump and a server that refuses nothing. -/
def obedient : Scripted.World := { shelved with server := default }

def shelvedOptions : Options :=
  { path := "dump.sql", database := "shop", compression := some .none, batchSize := some 2,
    policy := lenientUntil 5 }

/-- The statements executed and the faults noted, of a load that came to an end without a fault. -/
def counts (result : Except String (Except Fault Stats)) : Option (Nat × List StatementFault) :=
  match result with
  | .ok (.ok stats) => some (stats.executed, stats.errors)
  | _ => none

theorem exists_stats {result : Except String (Except Fault Stats)} {n : Nat}
    {errors : List StatementFault} (h : counts result = some (n, errors)) :
    ∃ stats, result = .ok (.ok stats) ∧ stats.executed = n ∧ stats.errors = errors := by
  rcases result with text | fault | stats
  · cases h
  · cases h
  · cases h
    exact ⟨stats, rfl, rfl, rfl⟩

/-- The first group is lost with its second statement, and the other two are committed. With nothing
refused, groups of one and groups of three come to the same. -/
theorem settled_of_shelved :
    (∃ stats, ((dump default shelvedOptions).run.run Scripted.host shelved).1.result =
        .ok (.ok stats) ∧ stats.executed = 3 ∧
      ∃ talk s', (dump default shelvedOptions).run.Dialogue Scripted.host shelved talk (.ok stats)
          s' ∧
        Settled Scripted.host default shelvedOptions shelved talk (.ok stats)) ∧
    ∃ talk talk' stats stats' t t',
      (dump default { shelvedOptions with batchSize := some 1 }).run.Dialogue Scripted.host obedient
        talk (.ok stats) t ∧
      (dump default { shelvedOptions with batchSize := some 3 }).run.Dialogue Scripted.host obedient
        talk' (.ok stats') t' ∧
      stats.executed = 5 ∧
      talk.filterMap Exchange.inside? = talk'.filterMap Exchange.inside? ∧
      stats.executed = stats'.executed := by
  have hplain (w : Scripted.World) : ∀ format talk t, (Dump.detect shelvedOptions.path
      shelvedOptions.compression).run.Dialogue Scripted.host w talk (.ok format) t →
      format.kind = .plain := fun _ _ _ => kind_of_detect
  constructor
  · have hcounts : counts ((dump default shelvedOptions).run.run Scripted.host shelved).1.result =
        some (3, [⟨"shop", 4, "b", "Database error: no"⟩]) := by decide +kernel
    obtain ⟨stats, hstats, hexecuted, -⟩ := exists_stats hcounts
    exact ⟨stats, hstats, hexecuted,
      (settled_of_dump Scripted.host default shelvedOptions shelved (hplain shelved)).1 _ hstats⟩
  · have hcounts : counts ((dump default { shelvedOptions with batchSize := some 1 }).run.run
        Scripted.host obedient).1.result = some (5, []) := by decide +kernel
    have hcounts' : counts ((dump default { shelvedOptions with batchSize := some 3 }).run.run
        Scripted.host obedient).1.result = some (5, []) := by decide +kernel
    obtain ⟨stats, hstats, hexecuted, hnone⟩ := exists_stats hcounts
    obtain ⟨stats', hstats', -, hnone'⟩ := exists_stats hcounts'
    obtain ⟨talk, htalk⟩ := Job.exists_dialogue hstats
    obtain ⟨talk', htalk'⟩ := Job.exists_dialogue hstats'
    have hsame := (settled_of_dump Scripted.host default shelvedOptions obedient
      (hplain obedient)).2 _ _ talk talk' stats stats' _ _ htalk htalk' hnone hnone'
    exact ⟨talk, talk', stats, stats', _, _, htalk, htalk', hexecuted, hsame⟩

end SqlBackup.Load
