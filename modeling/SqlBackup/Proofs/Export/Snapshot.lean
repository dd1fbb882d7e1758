import SqlBackup.Proofs.Export.Failing

/-!
# The snapshot of an export

An export that is asked for a snapshot reads nothing before the snapshot is there and nothing once
it has begun to let it go. It lets it go however the dump went, and whether it can does not matter
for what the export says.
-/
namespace SqlBackup

variable {σ α β : Type} {host host' : Host σ} {s s' : σ} {talk : List Exchange}

/-! ### Hosts that answer some requests otherwise -/

/-- A host that does the same, but may say something else to these requests. It breaks down over none
of them. -/
structure Host.Alike (others : Request → Prop) (host host' : Host σ) : Prop where
  same : ∀ request s, ¬ others request → host'.answer request s = host.answer request s
  state : ∀ request s, (host'.answer request s).2 = (host.answer request s).2
  replies : ∀ request s, others request → ∃ reply, (host'.answer request s).1.reply = .ok reply

/-- What the job comes to is the same on both hosts, where it does not break down. -/
def Job.SameOn (host host' : Host σ) (job : Job α) : Prop :=
  ∀ s talk a s', job.Dialogue host s talk a s' → ∃ talk', job.Dialogue host' s talk' a s'

namespace Job

variable {job : Job α} {f : α → Job β} {others allowed : Request → Prop}

/-- Where none of these requests is made, the dialogue is the same. -/
theorem sameOn_of_asks {wanted : α → Prop} (h : Host.Alike others host host')
    (hjob : job.Asks allowed wanted) (hallowed : ∀ request, allowed request → ¬ others request) :
    job.SameOn host host' := by
  intro s talk a s' htalk
  refine ⟨talk, ?_⟩
  induction job generalizing s talk with
  | done b => exact htalk
  | panic text => exact htalk
  | ask request next ih =>
    obtain ⟨reply, rest, hreply, rfl, hnext⟩ := htalk
    have hsame := h.same request s (hallowed request hjob.1)
    refine ⟨reply, rest, by rw [hsame, hreply], rfl, ?_⟩
    rw [hsame]
    exact ih reply (hjob.2 reply) _ rest hnext

theorem SameOn.bind (h : job.SameOn host host') (hf : ∀ a, (f a).SameOn host host') :
    (job.bind f).SameOn host host' := by
  intro s talk b s' htalk
  obtain ⟨first, a, t, second, rfl, hfirst, hsecond⟩ := dialogue_bind.mp htalk
  obtain ⟨first', hfirst'⟩ := h s first a t hfirst
  obtain ⟨second', hsecond'⟩ := hf a t second b s' hsecond
  exact ⟨first' ++ second', dialogue_bind.mpr ⟨first', a, t, second', rfl, hfirst', hsecond'⟩⟩

end Job

/-- The same of a piece of work. -/
def Work.SameOn (host host' : Host σ) (work : Work α) : Prop := work.run.SameOn host host'

namespace Work

variable {work : Work α} {f : α → Work β}

theorem SameOn.bind (h : work.SameOn host host') (hf : ∀ a, (f a).SameOn host host') :
    (work >>= f).SameOn host host' := by
  rw [SameOn, run_bind_eq]
  refine Job.SameOn.bind h fun result => ?_
  cases result with
  | ok a => exact hf a
  | error fault => exact fun _ talk _ _ htalk => ⟨talk, htalk⟩

theorem sameOn_ofJob {job : Job α} (h : job.SameOn host host') : (ofJob job).SameOn host host' :=
  Job.SameOn.bind h fun _ _ talk _ _ htalk => ⟨talk, htalk⟩

theorem sameOn_ofResult (result : Except Fault α) : (ofResult result).SameOn host host' :=
  fun _ talk _ _ htalk => ⟨talk, htalk⟩

end Work

/-! ### Statements executed -/

/-- The statement that a session was asked to execute, and whether it did. -/
def Exchange.executed? : Exchange → Option (String × Bool)
  | ⟨.session _ (.execute sql), answer⟩ => some (sql, answer.isOk)
  | _ => none

/-- The statements that sessions were asked to execute, in their order. -/
def executed (talk : List Exchange) : List (String × Bool) := talk.filterMap Exchange.executed?

theorem executed_append (first second : List Exchange) :
    executed (first ++ second) = executed first ++ executed second := List.filterMap_append ..

/-- A request by which no session is asked to execute a statement. -/
def Request.LeavesAlone (request : Request) : Prop :=
  ∀ session sql, request ≠ .session session (.execute sql)

theorem executed_of_leavesAlone (h : ∀ exchange ∈ talk, exchange.request.LeavesAlone) :
    executed talk = [] := by
  rw [executed, List.filterMap_eq_nil_iff]
  intro exchange hexchange
  have hleaves := h exchange hexchange
  unfold Exchange.executed?
  split
  · exact absurd rfl (hleaves _ _)
  · rfl

namespace Export

variable {session : Session} {options : Options} {statements : List String}

/-- A statement that was executed. -/
def done (session : Session) (sql : String) : Exchange := ⟨.session session (.execute sql), Except.ok ()⟩

/-- Statements are executed up to the first that fails. -/
theorem dialogue_executeAll {result : Except Fault Unit}
    (h : (executeAll session statements).run.Dialogue host s talk result s') :
    (result = .ok () ∧ talk = statements.map (done session)) ∨
      ∃ fault front sql back cause, result = .error fault ∧ statements = front ++ sql :: back ∧
        talk = front.map (done session) ++
          [⟨.session session (.execute sql), Except.error cause⟩] := by
  induction statements generalizing s talk with
  | nil =>
    obtain ⟨rfl, rfl, -⟩ := h
    exact .inl ⟨rfl, rfl⟩
  | cons sql statements ih =>
    rcases Work.dialogue_bind.mp h with ⟨fault, rfl, hfirst⟩ |
      ⟨first, _, t, second, rfl, hfirst, hsecond⟩
    · obtain ⟨answer, hanswer, -, rfl, -⟩ := Session.dialogue_call.mp hfirst
      cases answer with
      | ok _ => cases hanswer
      | error cause => exact .inr ⟨fault, [], sql, statements, cause, rfl, rfl, rfl⟩
    · obtain ⟨answer, hanswer, -, rfl, -⟩ := Session.dialogue_call.mp hfirst
      cases answer with
      | error cause => cases hanswer
      | ok _ =>
        rcases ih hsecond with ⟨rfl, rfl⟩ | ⟨fault, front, other, back, cause, rfl, rfl, rfl⟩
        · exact .inl ⟨rfl, rfl⟩
        · exact .inr ⟨fault, sql :: front, other, back, cause, rfl, rfl, rfl⟩

/-- All statements are attempted, whichever of them fail. -/
theorem dialogue_attemptAll (h : (attemptAll session statements).Dialogue host s talk () s') :
    talk.map Exchange.request = statements.map fun sql => .session session (.execute sql) := by
  induction statements generalizing s talk with
  | nil =>
    obtain ⟨rfl, -⟩ := h
    rfl
  | cons sql statements ih =>
    obtain ⟨reply, rest, -, rfl, hrest⟩ := h
    rw [List.map_cons, List.map_cons, ih hrest]

/-- The requests that let the snapshot of a session go. -/
def LetsGo (session : Session) (request : Request) : Prop :=
  ∃ sql ∈ Sql.endSnapshot, request = .session session (.execute sql)

/-- The requests that the writing of a dump makes. -/
def Writing (session : Session) (path : String) (request : Request) : Prop :=
  request.Fills session path ∨ request = .file (.create path)

theorem Writing.query_of_session {path : String} {request : Request} {other : Session}
    {call : Session.Call} (h : Writing session path request) (hcall : request = .session other call) :
    other = session ∧ ∃ sql, call = .query sql := by
  subst hcall
  rcases h with h | h
  · cases h with
    | emits h => cases h
    | query sql => exact ⟨rfl, sql, rfl⟩
  · cases h

theorem Writing.leavesAlone {path : String} {request : Request} (h : Writing session path request) :
    request.LeavesAlone := by
  intro other sql hrequest
  obtain ⟨-, query, hquery⟩ := h.query_of_session hrequest
  cases hquery

theorem asks_writing (session : Session) (options : Options) :
    (writeDump session options).Asks (Writing session options.path) fun _ => True :=
  asks_writeDump (.inr rfl) fun _ h => .inl h

/-- How an export goes on the session up to where its dump is complete or has failed. -/
inductive Course (session : Session) (options : Options) : List Exchange → Prop
  /-- The session does not enter the database. -/
  | outside (cause : SessionFault) :
      Course session options [⟨.session session (.useDatabase options.database), Except.error cause⟩]
  /-- There is no snapshot. -/
  | unpinned {front back : List String} {sql : String} (cause : SessionFault) :
      Sql.beginSnapshot = front ++ sql :: back →
      Course session options (⟨.session session (.useDatabase options.database), Except.ok ()⟩ ::
        (front.map (done session) ++ [⟨.session session (.execute sql), Except.error cause⟩]))
  /-- The dump is written inside a snapshot, which is let go then. -/
  | pinned {body closing : List Exchange} :
      (∀ exchange ∈ body, Writing session options.path exchange.request) →
      (closing.map Exchange.request =
        Sql.endSnapshot.map fun sql => .session session (.execute sql)) →
      Course session options (⟨.session session (.useDatabase options.database), Except.ok ()⟩ ::
        (Sql.beginSnapshot.map (done session) ++ (body ++ closing)))

theorem course_of_dialogue {result : Except Fault Stats} (hsnapshot : options.snapshot = true)
    (h : (writeConsistently session options).run.Dialogue host s talk result s') :
    Course session options talk := by
  rw [writeConsistently, if_pos hsnapshot] at h
  rcases Work.dialogue_bind.mp h with ⟨fault, rfl, huse⟩ | ⟨_, _, t, inside, rfl, huse, hinside⟩
  · obtain ⟨answer, hanswer, -, rfl, -⟩ := Session.dialogue_call.mp huse
    cases answer with
    | ok _ => cases hanswer
    | error cause => exact .outside cause
  obtain ⟨answer, hanswer, -, rfl, -⟩ := Session.dialogue_call.mp huse
  cases answer with
  | error cause => cases hanswer
  | ok _ =>
    rcases Work.dialogue_bind.mp hinside with ⟨fault, rfl, hopening⟩ |
      ⟨opening, _, u, pinned, rfl, hopening, hpinned⟩
    · rcases dialogue_executeAll hopening with ⟨hno, -⟩ |
        ⟨_, front, sql, back, cause, -, hsplit, rfl⟩
      · cases hno
      · exact .unpinned cause hsplit
    · rcases dialogue_executeAll hopening with ⟨-, rfl⟩ | ⟨_, _, _, _, _, hno, -⟩
      · obtain ⟨body, _, v, _, rfl, hbody, hbehind⟩ := Work.dialogue_ofJob_bind.mp hpinned
        obtain ⟨closing, _, w, _, rfl, hclosing, rfl, -⟩ := Work.dialogue_ofJob_bind.mp hbehind
        rw [List.append_nil]
        exact .pinned (Job.Asks.requests (asks_writing session options) hbody)
          (dialogue_attemptAll hclosing)
      · cases hno

/-! ### What a course shows -/

theorem executed_done (session : Session) (statements : List String) :
    executed (statements.map (done session)) = statements.map (·, true) := by
  induction statements with
  | nil => rfl
  | cons sql statements ih =>
    rw [List.map_cons, List.map_cons, ← ih]
    rfl

theorem executed_of_map_request {closing : List Exchange}
    (h : closing.map Exchange.request = statements.map fun sql => .session session (.execute sql)) :
    (executed closing).map Prod.fst = statements := by
  induction closing generalizing statements with
  | nil =>
    rw [List.map_nil, eq_comm, List.map_eq_nil_iff] at h
    rw [h]
    rfl
  | cons exchange closing ih =>
    obtain ⟨sql, rest, rfl, hsql, hrest⟩ := List.map_eq_cons_iff.mp h.symm
    obtain ⟨request, reply⟩ := exchange
    obtain rfl : Request.session session (.execute sql) = request := hsql
    rw [← ih hrest.symm]
    rfl

/-- What a session is asked while an export of its database goes on. -/
inductive Calls (session : Session) (options : Options) : Session → Session.Call → Prop
  | use : Calls session options session (.useDatabase options.database)
  | query (sql : String) : Calls session options session (.query sql)
  | begins {sql : String} : sql ∈ Sql.beginSnapshot → Calls session options session (.execute sql)
  | ends {sql : String} : sql ∈ Sql.endSnapshot → Calls session options session (.execute sql)

/-- Where an export reads, what it executes and when it lets its snapshot go. -/
structure InSnapshot (session : Session) (options : Options) (talk : List Exchange) : Prop where
  /-- Only the database is entered, and no other statement is executed. -/
  calls : ∀ exchange ∈ talk, ∀ other call, exchange.request = .session other call →
    Calls session options other call
  /-- What was executed before any query are the statements that begin the snapshot, and no others.
  All of them succeeded. -/
  queries : ∀ before exchange after other sql, talk = before ++ exchange :: after →
    exchange.request = .session other (.query sql) →
    executed before = Sql.beginSnapshot.map (·, true)
  /-- Behind those, if all succeeded, each statement that ends the snapshot is attempted once. -/
  released : (∀ sql ∈ Sql.beginSnapshot, (sql, true) ∈ executed talk) →
    ∃ ends, executed talk = Sql.beginSnapshot.map (·, true) ++ ends ∧
      ends.map Prod.fst = Sql.endSnapshot

/-- A query was made while the dump was written. -/
theorem before_query {opening body ending before after : List Exchange} {exchange : Exchange}
    {P : Exchange → Prop} (hopening : ∀ e ∈ opening, ¬ P e) (hending : ∀ e ∈ ending, ¬ P e)
    (hexchange : P exchange) (h : opening ++ (body ++ ending) = before ++ exchange :: after) :
    ∃ read, before = opening ++ read ∧ read <+: body := by
  rcases List.append_eq_append_iff.mp h with ⟨read, rfl, hread⟩ | ⟨left, rfl, hleft⟩
  · refine ⟨read, rfl, ?_⟩
    rcases List.append_eq_append_iff.mp hread with ⟨y, rfl, hy⟩ | ⟨y, rfl, -⟩
    · exact absurd hexchange (hending exchange (by rw [hy]; simp))
    · exact List.prefix_append read y
  · cases left with
    | nil => exact ⟨[], by simp, List.nil_prefix⟩
    | cons e left =>
      obtain ⟨rfl, -⟩ := List.cons.inj hleft
      exact absurd hexchange (hopening exchange (by simp))

/-- An exchange in which a session is queried. -/
def IsQuery (exchange : Exchange) : Prop :=
  ∃ session sql, exchange.request = .session session (.query sql)

/-- An exchange that no session takes part in. -/
def IsAside (exchange : Exchange) : Prop :=
  ∀ session call, exchange.request ≠ .session session call

theorem IsAside.not_isQuery {exchange : Exchange} (h : IsAside exchange) : ¬ IsQuery exchange := by
  rintro ⟨session, sql, hquery⟩
  exact h session _ hquery

theorem executed_of_isAside (h : ∀ exchange ∈ talk, IsAside exchange) : executed talk = [] :=
  executed_of_leavesAlone fun exchange hexchange session _ => h exchange hexchange session _

theorem not_isQuery_of_execute {exchange : Exchange} {sql : String}
    (h : exchange.request = .session session (.execute sql)) : ¬ IsQuery exchange := by
  rintro ⟨other, query, hquery⟩
  rw [h] at hquery
  cases hquery

theorem not_isQuery_of_done (statements : List String) :
    ∀ exchange ∈ statements.map (done session), ¬ IsQuery exchange := by
  intro exchange hexchange
  obtain ⟨sql, -, rfl⟩ := List.mem_map.mp hexchange
  have hdone : (done session sql).request = .session session (.execute sql) := rfl
  exact not_isQuery_of_execute hdone

/-- Where nothing was queried, only what was called and executed is to be shown. -/
theorem inSnapshot_of_no_query (hquery : ∀ exchange ∈ talk, ¬ IsQuery exchange)
    (hcalls : ∀ exchange ∈ talk, ∀ other call, exchange.request = .session other call →
      Calls session options other call)
    (hfailed : ∃ sql ∈ Sql.beginSnapshot, (sql, true) ∉ executed talk) :
    InSnapshot session options talk := by
  obtain ⟨sql, hsql, hno⟩ := hfailed
  refine ⟨hcalls, ?_, fun hall => absurd (hall sql hsql) hno⟩
  rintro before exchange after other query rfl hrequest
  exact absurd ⟨other, query, hrequest⟩ (hquery exchange (by simp))

/-- Nothing that happens aside changes what holds of the sessions. -/
theorem InSnapshot.append {after : List Exchange} (h : InSnapshot session options talk)
    (hafter : ∀ exchange ∈ after, IsAside exchange) :
    InSnapshot session options (talk ++ after) := by
  have hexecuted : executed (talk ++ after) = executed talk := by
    rw [executed_append, executed_of_isAside hafter, List.append_nil]
  refine ⟨?_, ?_, by rw [hexecuted]; exact h.released⟩
  · intro exchange hexchange other call hrequest
    rcases List.mem_append.mp hexchange with hmem | hmem
    · exact h.calls exchange hmem other call hrequest
    · exact absurd hrequest (hafter exchange hmem other call)
  · intro before exchange behind other sql hsplit hrequest
    have hexchange : IsQuery exchange := ⟨other, sql, hrequest⟩
    rcases List.append_eq_append_iff.mp hsplit with ⟨left, rfl, hleft⟩ | ⟨left, rfl, hleft⟩
    · exact absurd hexchange (hafter exchange (by rw [hleft]; simp)).not_isQuery
    · cases left with
      | nil =>
        rw [List.nil_append] at hleft
        exact absurd hexchange (hafter exchange (hleft ▸ List.mem_cons_self)).not_isQuery
      | cons e left =>
        obtain ⟨rfl, -⟩ := List.cons.inj hleft
        exact h.queries before exchange left other sql rfl hrequest

theorem nodup_beginSnapshot : Sql.beginSnapshot.Nodup := by decide

theorem calls_of_done {statements : List String} (h : ∀ sql ∈ statements, sql ∈ Sql.beginSnapshot) :
    ∀ exchange ∈ statements.map (done session), ∀ other call,
      exchange.request = .session other call → Calls session options other call := by
  intro exchange hexchange other call hrequest
  obtain ⟨sql, hsql, rfl⟩ := List.mem_map.mp hexchange
  cases hrequest
  exact .begins (h sql hsql)

theorem not_isQuery_of_use {database : String} {answer : Except SessionFault Unit} :
    ¬ IsQuery ⟨.session session (.useDatabase database), answer⟩ := by
  rintro ⟨other, sql, hquery⟩
  cases hquery

theorem calls_of_use {answer : Except SessionFault Unit} : ∀ other call,
    (⟨.session session (.useDatabase options.database), answer⟩ : Exchange).request =
      .session other call → Calls session options other call := by
  rintro other call ⟨⟩
  exact .use

theorem inSnapshot_of_outside (cause : SessionFault) : InSnapshot session options
    [⟨.session session (.useDatabase options.database), Except.error cause⟩] := by
  refine inSnapshot_of_no_query ?_ ?_ ⟨_, List.mem_cons_self, by simp [executed, Exchange.executed?]⟩
  · exact List.forall_mem_singleton.mpr not_isQuery_of_use
  · exact List.forall_mem_singleton.mpr calls_of_use

theorem inSnapshot_of_unpinned {front back : List String} {sql : String} (cause : SessionFault)
    (hsplit : Sql.beginSnapshot = front ++ sql :: back) : InSnapshot session options
      (⟨.session session (.useDatabase options.database), Except.ok ()⟩ ::
        (front.map (done session) ++ [⟨.session session (.execute sql), Except.error cause⟩])) := by
  have hfront : ∀ other ∈ front, other ∈ Sql.beginSnapshot := by
    intro other hother
    rw [hsplit]
    exact List.mem_append_left _ hother
  have hsql : sql ∈ Sql.beginSnapshot := by simp [hsplit]
  have hnew : sql ∉ front := by
    have hnodup := nodup_beginSnapshot
    rw [hsplit] at hnodup
    exact fun hmem => (List.nodup_append.mp hnodup).2.2 sql hmem sql List.mem_cons_self rfl
  have hexecuted : executed (⟨.session session (.useDatabase options.database), Except.ok ()⟩ ::
      (front.map (done session) ++ [⟨.session session (.execute sql), Except.error cause⟩])) =
        front.map (·, true) ++ [(sql, false)] := by
    rw [← executed_done session front]
    exact executed_append _ _
  refine inSnapshot_of_no_query ?_ ?_ ⟨sql, hsql, ?_⟩
  · rw [List.forall_mem_cons, List.forall_mem_append, List.forall_mem_singleton]
    exact ⟨not_isQuery_of_use, not_isQuery_of_done front, not_isQuery_of_execute rfl⟩
  · rw [List.forall_mem_cons, List.forall_mem_append, List.forall_mem_singleton]
    refine ⟨calls_of_use, calls_of_done hfront, ?_⟩
    rintro other call ⟨⟩
    exact .begins hsql
  · rw [hexecuted]
    simpa using hnew

theorem exists_of_map_request {closing : List Exchange}
    (h : closing.map Exchange.request = statements.map fun sql => .session session (.execute sql)) :
    ∀ exchange ∈ closing, ∃ sql ∈ statements,
      exchange.request = .session session (.execute sql) := by
  intro exchange hexchange
  have hmem := List.mem_map_of_mem (f := Exchange.request) hexchange
  rw [h] at hmem
  obtain ⟨sql, hsql, hrequest⟩ := List.mem_map.mp hmem
  exact ⟨sql, hsql, hrequest.symm⟩

/-- What is written behind the statements that begin the snapshot is read inside of it. -/
theorem inSnapshot_of_pinned {body closing : List Exchange}
    (hbody : ∀ exchange ∈ body, Writing session options.path exchange.request)
    (hclosing : closing.map Exchange.request =
      Sql.endSnapshot.map fun sql => .session session (.execute sql)) : InSnapshot session options
      (⟨.session session (.useDatabase options.database), Except.ok ()⟩ ::
        (Sql.beginSnapshot.map (done session) ++ (body ++ closing))) := by
  set opening : List Exchange :=
    ⟨.session session (.useDatabase options.database), Except.ok ()⟩ ::
      Sql.beginSnapshot.map (done session) with hopening
  have hbegun : executed opening = Sql.beginSnapshot.map (·, true) :=
    executed_done session Sql.beginSnapshot
  have hwritten {read : List Exchange} (hread : ∀ exchange ∈ read, exchange ∈ body) :
      executed read = [] :=
    executed_of_leavesAlone fun exchange h => (hbody exchange (hread exchange h)).leavesAlone
  have hclosed := exists_of_map_request hclosing
  show InSnapshot session options (opening ++ (body ++ closing))
  constructor
  case calls =>
    rw [List.forall_mem_append, List.forall_mem_append, hopening, List.forall_mem_cons]
    refine ⟨⟨calls_of_use, calls_of_done fun _ h => h⟩, ?_, ?_⟩
    · intro exchange hexchange other call hrequest
      obtain ⟨rfl, sql, rfl⟩ := (hbody exchange hexchange).query_of_session hrequest
      exact .query sql
    · intro exchange hexchange other call hrequest
      obtain ⟨sql, hsql, hexecute⟩ := hclosed exchange hexchange
      rw [hexecute] at hrequest
      cases hrequest
      exact .ends hsql
  case queries =>
    intro before exchange after other sql hsplit hrequest
    have hnone : ∀ e ∈ opening, ¬ IsQuery e := by
      rw [hopening, List.forall_mem_cons]
      exact ⟨not_isQuery_of_use, not_isQuery_of_done _⟩
    have hending : ∀ e ∈ closing, ¬ IsQuery e := by
      intro e he
      obtain ⟨sql, -, hexecute⟩ := hclosed e he
      exact not_isQuery_of_execute hexecute
    obtain ⟨read, rfl, hread⟩ := before_query hnone hending ⟨other, sql, hrequest⟩ hsplit
    rw [executed_append, hbegun, hwritten fun _ he => hread.subset he, List.append_nil]
  case released =>
    intro _
    refine ⟨executed closing, ?_, executed_of_map_request hclosing⟩
    rw [executed_append, executed_append, hbegun, hwritten fun _ he => he, List.nil_append]

theorem Course.inSnapshot (h : Course session options talk) : InSnapshot session options talk := by
  cases h with
  | outside cause => exact inSnapshot_of_outside cause
  | unpinned cause hsplit => exact inSnapshot_of_unpinned cause hsplit
  | pinned hbody hclosing => exact inSnapshot_of_pinned hbody hclosing

/-! ### The whole export -/

/-- What is asked of files only. -/
def OfFiles (request : Request) : Prop := ∃ call, request = .file call

theorem OfFiles.isAside {exchange : Exchange} (h : OfFiles exchange.request) : IsAside exchange := by
  obtain ⟨call, hcall⟩ := h
  intro session other hrequest
  rw [hcall] at hrequest
  cases hrequest

/-- What follows the dump: its size is told, or what there is of it is removed. -/
def conclude (options : Options) : Except Fault Stats → Work Stats
  | .ok stats => do
      let fileSize ← Work.onPath options.path (.file (.size options.path))
      pure { stats with fileSize }
  | .error fault => do
      Work.ofJob (discard options.path)
      .fail fault

theorem database_eq (session : Session) (options : Options) :
    database session options = (writeConsistently session options).outcome >>= conclude options := by
  rw [database]
  rfl

theorem asks_conclude (options : Options) (result : Except Fault Stats) :
    (conclude options result).Asks OfFiles fun _ => True := by
  cases result with
  | ok stats =>
    exact (Work.asks_onPath (Job.asks_request ⟨_, rfl⟩ fun _ => trivial)).bind fun _ _ =>
      Work.asks_pure trivial
  | error fault =>
    have hdiscard : (discard options.path).Asks OfFiles fun _ => True := by
      refine ⟨⟨_, rfl⟩, fun kind => ?_⟩
      cases kind with
      | none => trivial
      | some kind => exact ⟨⟨_, rfl⟩, fun _ => trivial⟩
    exact (Work.asks_ofJob hdiscard).bind fun _ _ => Work.asks_fail

section Forgiving

variable (halike : Host.Alike (LetsGo session) host host')
include halike

/-- Whether the snapshot can be let go does not matter. -/
theorem sameOn_attemptAll (h : ∀ sql ∈ statements, sql ∈ Sql.endSnapshot) :
    (attemptAll session statements).SameOn host host' := by
  induction statements with
  | nil => exact fun _ talk _ _ htalk => ⟨talk, htalk⟩
  | cons sql statements ih =>
    rw [List.forall_mem_cons] at h
    rintro s _ a s' ⟨_, rest, -, rfl, hrest⟩
    obtain ⟨rest', hrest'⟩ := ih h.2 _ rest a s' hrest
    obtain ⟨reply, hreply⟩ := halike.replies _ s ⟨sql, h.1, rfl⟩
    refine ⟨_, reply, rest', hreply, rfl, ?_⟩
    rw [halike.state]
    exact hrest'

theorem sameOn_writeDump (options : Options) : (writeDump session options).SameOn host host' := by
  refine Job.sameOn_of_asks halike (asks_writing session options) ?_
  rintro request hwriting ⟨sql, -, hrequest⟩
  exact hwriting.leavesAlone session sql hrequest

theorem sameOn_writeConsistently (options : Options) :
    (writeConsistently session options).SameOn host host' := by
  have hend : ∀ sql ∈ Sql.beginSnapshot, sql ∉ Sql.endSnapshot := by decide
  have huse : (session.call (.useDatabase options.database)).SameOn host host' := by
    have hasks : (session.call (.useDatabase options.database)).Asks
        (· = .session session (.useDatabase options.database)) fun _ => True :=
      Work.asks_call rfl
    refine Job.sameOn_of_asks halike hasks ?_
    rintro _ rfl ⟨sql, -, hrequest⟩
    cases hrequest
  have hopen : (executeAll session Sql.beginSnapshot).SameOn host host' := by
    have hasks : (executeAll session Sql.beginSnapshot).Asks
        (fun request => ∃ sql ∈ Sql.beginSnapshot, request = .session session (.execute sql))
        fun _ => True :=
      asks_executeAll fun sql hsql => ⟨sql, hsql, rfl⟩
    refine Job.sameOn_of_asks halike hasks ?_
    rintro _ ⟨sql, hsql, rfl⟩ ⟨other, hother, hrequest⟩
    cases hrequest
    exact hend sql hsql hother
  have hclose : (attemptAll session Sql.endSnapshot).SameOn host host' :=
    sameOn_attemptAll halike fun _ h => h
  rw [writeConsistently]
  refine huse.bind fun _ => ?_
  split
  · refine hopen.bind fun _ => ?_
    refine (Work.sameOn_ofJob (sameOn_writeDump halike options)).bind fun result => ?_
    exact (Work.sameOn_ofJob hclose).bind fun _ => Work.sameOn_ofResult result
  · exact sameOn_writeDump halike options

end Forgiving

/-- An export in a snapshot reads nothing outside of it, executes nothing but what begins and ends it,
and lets it go once all that begins it has succeeded. What it comes to does not depend on whether the
snapshot can be let go. -/
theorem inSnapshot_of_dialogue {σ : Type} (host : Host σ) (session : Session) (options : Options)
    (hsnapshot : options.snapshot = true) (s s' : σ) (talk : List Exchange)
    (result : Except Fault Stats)
    (h : (database session options).run.Dialogue host s talk result s') :
    InSnapshot session options talk ∧
      ∀ host', Host.Alike (LetsGo session) host host' →
        ∃ talk', (database session options).run.Dialogue host' s talk' result s' := by
  constructor
  · rw [database_eq] at h
    obtain ⟨first, written, u, second, rfl, hfirst, hsecond⟩ := Work.dialogue_ofJob_bind.mp h
    refine (course_of_dialogue hsnapshot hfirst).inSnapshot.append fun exchange hexchange => ?_
    exact (Job.Asks.requests (asks_conclude options written) hsecond exchange hexchange).isAside
  · intro host' halike
    rw [database_eq] at h ⊢
    refine Work.SameOn.bind (Work.sameOn_ofJob (sameOn_writeConsistently halike options))
      (fun written => Job.sameOn_of_asks halike (asks_conclude options written) ?_) s talk result s' h
    rintro request ⟨call, rfl⟩ ⟨sql, -, hrequest⟩
    cases hrequest

/-- The server neither says how the table is created nor lets the snapshot go. -/
def unreleased : Scripted.World :=
  failingWorld [⟨some "exec", "COMMIT", 0, none, .refuse (.rejected "no")⟩]
    (Sql.showCreateTable "no;tes")

theorem inSnapshot_of_unreleased : notesOptions.snapshot = true ∧ ∃ talk fault w,
    (database notesSession notesOptions).run.Dialogue Scripted.host unreleased talk (.error fault)
      w ∧
    InSnapshot notesSession notesOptions talk ∧
    ∀ host', Host.Alike (LetsGo notesSession) Scripted.host host' → ∃ talk',
      (database notesSession notesOptions).run.Dialogue host' unreleased talk' (.error fault) w := by
  have hresult : ((database notesSession notesOptions).run.run Scripted.host unreleased).1.result =
      .ok (.error (.session (.unexpectedResult (Sql.showCreateTable "no;tes")
        "no creation statement returned"))) := by decide +kernel
  obtain ⟨talk, htalk⟩ := Job.exists_dialogue hresult
  exact ⟨rfl, talk, _, _, htalk,
    inSnapshot_of_dialogue Scripted.host notesSession notesOptions rfl unreleased _ talk _ htalk⟩

end Export

end SqlBackup
