import Mathlib
import SqlBackup.Job
import SqlBackup.Proofs.Job.Asks

/-!
# What jobs and hosts say to each other

The dialogue of a job with a host lists the requests that the job makes, each with its reply. As the
host can answer as it likes, what holds of all dialogues holds however the requests are answered.

A job ends well on a host if it does not break down and its value and the state of the host then
are as wanted. What a sequence of parts does follows from what each part does.
-/
namespace SqlBackup

variable {σ α β : Type} {host : Host σ}

/-- A request and the reply to it. -/
structure Exchange where
  request : Request
  reply : request.Reply

/-- From a state of the host on, the job has this dialogue, and ends with this value and the host in
this state. A job that breaks down does not end. -/
def Job.Dialogue (host : Host σ) : Job α → σ → List Exchange → α → σ → Prop
  | .done a, s, talk, b, s' => talk = [] ∧ b = a ∧ s' = s
  | .panic _, _, _, _, _ => False
  | .ask request next, s, talk, b, s' =>
      ∃ reply rest, (host.answer request s).1.reply = .ok reply ∧
        talk = ⟨request, reply⟩ :: rest ∧
        (next reply).Dialogue host (host.answer request s).2 rest b s'

namespace Job

variable {job : Job α} {f : α → Job β} {s s' : σ} {talk : List Exchange} {a : α} {b : β}

/-- A job that a host runs to its end has a dialogue with it. -/
theorem exists_dialogue (h : (job.run host s).1.result = .ok a) :
    ∃ talk, job.Dialogue host s talk a (job.run host s).2 := by
  induction job generalizing s with
  | done b =>
    cases h
    exact ⟨[], rfl, rfl, rfl⟩
  | panic text => cases h
  | ask request next ih =>
    rw [run] at h ⊢
    cases hreply : (host.answer request s).1.reply with
    | error text =>
      simp only [hreply] at h
      cases h
    | ok reply =>
      simp only [hreply] at h ⊢
      obtain ⟨talk, htalk⟩ := ih reply h
      exact ⟨⟨request, reply⟩ :: talk, reply, talk, hreply, rfl, htalk⟩

/-- The dialogue of a job with a host is the one of its run. -/
theorem Dialogue.run (h : job.Dialogue host s talk a s') :
    (job.run host s).1.result = .ok a ∧ (job.run host s).2 = s' := by
  induction job generalizing s talk with
  | done b =>
    obtain ⟨-, rfl, rfl⟩ := h
    exact ⟨rfl, rfl⟩
  | panic text => exact h.elim
  | ask request next ih =>
    obtain ⟨reply, rest, hreply, -, hnext⟩ := h
    rw [Job.run]
    simp only [hreply]
    exact ih reply hnext

theorem dialogue_bind {b : β} : (job.bind f).Dialogue host s talk b s' ↔
    ∃ first a t second, talk = first ++ second ∧ job.Dialogue host s first a t ∧
      (f a).Dialogue host t second b s' := by
  induction job generalizing s talk with
  | done c =>
    refine ⟨fun h => ⟨[], c, s, talk, rfl, ⟨rfl, rfl, rfl⟩, h⟩, ?_⟩
    rintro ⟨first, a, t, second, rfl, ⟨rfl, rfl, rfl⟩, h⟩
    exact h
  | panic text =>
    refine ⟨fun h => h.elim, ?_⟩
    rintro ⟨first, a, t, second, -, h, -⟩
    exact h
  | ask request next ih =>
    simp only [ask_bind, Dialogue, ih]
    constructor
    · rintro ⟨reply, rest, hreply, rfl, first, a, t, second, rfl, hfirst, hsecond⟩
      exact ⟨⟨request, reply⟩ :: first, a, t, second, rfl, ⟨reply, first, hreply, rfl, hfirst⟩,
        hsecond⟩
    · rintro ⟨first, a, t, second, rfl, ⟨reply, rest, hreply, rfl, hrest⟩, hsecond⟩
      exact ⟨reply, rest ++ second, hreply, rfl, rest, a, t, second, rfl, hrest, hsecond⟩

/-- A single request. -/
theorem dialogue_request {request : Request} {reply : request.Reply} :
    (Job.request request).Dialogue host s talk reply s' ↔
      (host.answer request s).1.reply = .ok reply ∧ talk = [⟨request, reply⟩] ∧
        s' = (host.answer request s).2 := by
  constructor
  · rintro ⟨reply', rest, hreply, rfl, rfl, rfl, rfl⟩
    exact ⟨hreply, rfl, rfl⟩
  · rintro ⟨hreply, rfl, rfl⟩
    exact ⟨reply, [], hreply, rfl, rfl, rfl, rfl⟩

/-- What every request that a job may make keeps, its dialogue keeps. -/
theorem Asks.dialogue {allowed : Request → Prop} {wanted : α → Prop} (h : job.Asks allowed wanted)
    {kept : σ → Prop} (hkept : ∀ request s, allowed request → kept s →
      kept (host.answer request s).2) (hs : kept s) (htalk : job.Dialogue host s talk a s') :
    kept s' ∧ ∀ exchange ∈ talk, allowed exchange.request := by
  induction job generalizing s talk with
  | done b =>
    obtain ⟨rfl, -, rfl⟩ := htalk
    exact ⟨hs, by simp⟩
  | panic text => exact htalk.elim
  | ask request next ih =>
    obtain ⟨reply, rest, -, rfl, hnext⟩ := htalk
    obtain ⟨hs', hrest⟩ := ih reply (h.2 reply) (hkept request s h.1 hs) hnext
    exact ⟨hs', List.forall_mem_cons.mpr ⟨h.1, hrest⟩⟩

/-- In a dialogue only requests are made that the job may make. -/
theorem Asks.requests {allowed : Request → Prop} {wanted : α → Prop} (h : job.Asks allowed wanted)
    (htalk : job.Dialogue host s talk a s') : ∀ exchange ∈ talk, allowed exchange.request := by
  let any : σ → Prop := fun _ => True
  have hany : ∀ request s, allowed request → any s → any (host.answer request s).2 :=
    fun _ _ _ _ => trivial
  exact (h.dialogue hany trivial htalk).2

end Job

/-- What follows a result: the next part of a piece of work after a value, nothing after a fault. -/
def Work.after (f : α → Work β) : Except Fault α → Job (Except Fault β)
  | .ok a => (f a).run
  | .error fault => .done (.error fault)

theorem Work.run_bind_eq (work : Work α) (f : α → Work β) :
    (work >>= f).run = work.run.bind (Work.after f) := by
  show work.run.bind _ = _
  congr 1
  funext result
  cases result <;> rfl

namespace Work

variable {work : Work α} {f : α → Work β} {s s' : σ} {talk : List Exchange}

/-- Work goes on with its second part exactly where the first yields a value. -/
theorem dialogue_bind {result : Except Fault β} :
    (work >>= f).run.Dialogue host s talk result s' ↔
      (∃ fault, result = .error fault ∧ work.run.Dialogue host s talk (.error fault) s') ∨
      ∃ first a t second, talk = first ++ second ∧ work.run.Dialogue host s first (.ok a) t ∧
        (f a).run.Dialogue host t second result s' := by
  rw [run_bind_eq, Job.dialogue_bind]
  constructor
  · rintro ⟨first, value, t, second, rfl, hfirst, hsecond⟩
    cases value with
    | error fault =>
      obtain ⟨rfl, rfl, rfl⟩ := hsecond
      exact .inl ⟨fault, rfl, by rwa [List.append_nil]⟩
    | ok a => exact .inr ⟨first, a, t, second, rfl, hfirst, hsecond⟩
  · rintro (⟨fault, rfl, h⟩ | ⟨first, a, t, second, rfl, hfirst, hsecond⟩)
    · exact ⟨talk, .error fault, s', [], (List.append_nil talk).symm, h, rfl, rfl, rfl⟩
    · exact ⟨first, .ok a, t, second, rfl, hfirst, hsecond⟩

/-- Work that yields a value has yielded one in its first part. -/
theorem dialogue_bind_ok {b : β} (h : (work >>= f).run.Dialogue host s talk (.ok b) s') :
    ∃ first a t second, talk = first ++ second ∧ work.run.Dialogue host s first (.ok a) t ∧
      (f a).run.Dialogue host t second (.ok b) s' := by
  rcases dialogue_bind.mp h with ⟨fault, hno, -⟩ | hyes
  · cases hno
  · exact hyes

/-- What follows counts only for the values that the first part can yield. -/
theorem dialogue_bind_congr {g : α → Work β} {result : Except Fault β}
    (h : ∀ first a t, work.run.Dialogue host s first (.ok a) t → f a = g a) :
    (work >>= f).run.Dialogue host s talk result s' ↔
      (work >>= g).run.Dialogue host s talk result s' := by
  simp only [dialogue_bind]
  refine or_congr_right ⟨?_, ?_⟩
  · rintro ⟨first, a, t, second, rfl, hfirst, hsecond⟩
    exact ⟨first, a, t, second, rfl, hfirst, h first a t hfirst ▸ hsecond⟩
  · rintro ⟨first, a, t, second, rfl, hfirst, hsecond⟩
    exact ⟨first, a, t, second, rfl, hfirst, h first a t hfirst ▸ hsecond⟩

/-- Work that has the result of a job for its value. -/
theorem dialogue_ofJob {job : Job α} {result : Except Fault α} :
    (ofJob job).run.Dialogue host s talk result s' ↔
      ∃ a, result = .ok a ∧ job.Dialogue host s talk a s' := by
  show (job.bind fun a => .done (.ok a)).Dialogue host s talk result s' ↔ _
  rw [Job.dialogue_bind]
  constructor
  · rintro ⟨first, a, t, second, rfl, hfirst, rfl, rfl, rfl⟩
    exact ⟨a, rfl, by rwa [List.append_nil]⟩
  · rintro ⟨a, rfl, h⟩
    exact ⟨talk, a, s', [], (List.append_nil talk).symm, h, rfl, rfl, rfl⟩

/-- What follows a job that cannot fail. -/
theorem dialogue_ofJob_bind {job : Job α} {result : Except Fault β} :
    (ofJob job >>= f).run.Dialogue host s talk result s' ↔
      ∃ first a t second, talk = first ++ second ∧ job.Dialogue host s first a t ∧
        (f a).run.Dialogue host t second result s' := by
  simp only [dialogue_bind, dialogue_ofJob]
  constructor
  · rintro (⟨fault, -, a, ha, -⟩ | ⟨first, a, t, second, rfl, ⟨a', ha, hfirst⟩, hsecond⟩)
    · cases ha
    · cases ha
      exact ⟨first, a, t, second, rfl, hfirst, hsecond⟩
  · rintro ⟨first, a, t, second, rfl, hfirst, hsecond⟩
    exact .inr ⟨first, a, t, second, rfl, ⟨a, rfl, hfirst⟩, hsecond⟩

/-- Work that has the value of a job yields what the job does. -/
theorem dialogue_ofExcept_ok {ε : Type} {fault : ε → Fault} {job : Job (Except ε α)} {a : α}
    (h : (ofExcept fault job).run.Dialogue host s talk (.ok a) s') :
    job.Dialogue host s talk (.ok a) s' := by
  obtain ⟨first, answer, t, second, rfl, hfirst, rfl, hsame, rfl⟩ := Job.dialogue_bind.mp h
  rw [List.append_nil]
  cases answer with
  | error cause => cases hsame
  | ok value =>
    cases hsame
    exact hfirst

end Work

/-- A call of a session is a single exchange. Its failure is a fault of the session. -/
theorem Session.dialogue_call {session : Session} {call : Session.Call} {s s' : σ}
    {talk : List Exchange} {result : Except Fault call.Reply} :
    (session.call call).run.Dialogue host s talk result s' ↔
      ∃ answer : Except SessionFault call.Reply, result = answer.mapError Fault.session ∧
        (host.answer (.session session call) s).1.reply = .ok answer ∧
        talk = [⟨.session session call, answer⟩] ∧
        s' = (host.answer (.session session call) s).2 := by
  show ((Job.request (.session session call)).bind fun answer =>
    .done (answer.mapError Fault.session)).Dialogue host s talk result s' ↔ _
  rw [Job.dialogue_bind]
  constructor
  · rintro ⟨first, answer, t, second, rfl, hfirst, rfl, rfl, rfl⟩
    obtain ⟨hreply, rfl, rfl⟩ := Job.dialogue_request.mp hfirst
    exact ⟨answer, rfl, hreply, rfl, rfl⟩
  · rintro ⟨answer, rfl, hreply, rfl, rfl⟩
    exact ⟨_, answer, _, [], rfl, Job.dialogue_request.mpr ⟨hreply, rfl, rfl⟩, rfl, rfl, rfl⟩

end SqlBackup

namespace SqlBackup

variable {σ α β : Type} {host : Host σ}

/-- The job does not break down, and it ends with a value and a state that are as wanted. -/
def Job.Ends (host : Host σ) : Job α → σ → (α → σ → Prop) → Prop
  | .done a, s, wanted => wanted a s
  | .panic _, _, _ => False
  | .ask request next, s, wanted =>
      ∃ reply, (host.answer request s).1.reply = .ok reply ∧
        (next reply).Ends host (host.answer request s).2 wanted

namespace Job

variable {job : Job α} {f : α → Job β} {s : σ}

theorem ends_bind {wanted : β → σ → Prop} : (job.bind f).Ends host s wanted ↔
    job.Ends host s fun a s => (f a).Ends host s wanted := by
  induction job generalizing s with
  | done a => rfl
  | panic text => rfl
  | ask request next ih => simp only [ask_bind, Ends, ih]

theorem Ends.mono {wanted wanted' : α → σ → Prop} (h : job.Ends host s wanted)
    (himp : ∀ a s, wanted a s → wanted' a s) : job.Ends host s wanted' := by
  induction job generalizing s with
  | done a => exact himp a s h
  | panic text => exact h
  | ask request next ih =>
    obtain ⟨reply, hreply, hnext⟩ := h
    exact ⟨reply, hreply, ih reply hnext⟩

theorem ends_request {request : Request} {reply : request.Reply} {wanted : request.Reply → σ → Prop}
    (hreply : (host.answer request s).1.reply = .ok reply)
    (h : wanted reply (host.answer request s).2) : (Job.request request).Ends host s wanted :=
  ⟨reply, hreply, h⟩

/-- A job that ends so runs so. -/
theorem Ends.run {wanted : α → σ → Prop} (h : job.Ends host s wanted) :
    ∃ a, (job.run host s).1.result = .ok a ∧ wanted a (job.run host s).2 := by
  induction job generalizing s with
  | done a => exact ⟨a, rfl, h⟩
  | panic text => exact h.elim
  | ask request next ih =>
    obtain ⟨reply, hreply, hnext⟩ := h
    obtain ⟨a, hresult, ha⟩ := ih reply hnext
    simp only [Job.run, hreply]
    exact ⟨a, hresult, ha⟩

end Job

/-- The work does not fail, and it ends with a value and a state that are as wanted. -/
def Work.Succeeds (host : Host σ) (work : Work α) (s : σ) (wanted : α → σ → Prop) : Prop :=
  Job.Ends host work.run s fun result s => ∃ a, result = .ok a ∧ wanted a s

namespace Work

variable {work : Work α} {f : α → Work β} {s : σ}

theorem succeeds_pure {a : α} {wanted : α → σ → Prop} (h : wanted a s) :
    (pure a : Work α).Succeeds host s wanted := ⟨a, rfl, h⟩

/-- What succeeds first, and what succeeds then, succeed together. -/
theorem Succeeds.bind {m : α → σ → Prop} {wanted : β → σ → Prop}
    (h : work.Succeeds host s m)
    (hf : ∀ a s, m a s → (f a).Succeeds host s wanted) :
    (work >>= f).Succeeds host s wanted := by
  show Job.Ends host (work.run.bind _) s _
  rw [Job.ends_bind]
  refine Job.Ends.mono h ?_
  rintro _ s ⟨a, rfl, ha⟩
  exact hf a s ha

theorem Succeeds.mono {wanted wanted' : α → σ → Prop} (h : work.Succeeds host s wanted)
    (himp : ∀ a s, wanted a s → wanted' a s) : work.Succeeds host s wanted' :=
  Job.Ends.mono h fun _ s ⟨a, hresult, ha⟩ => ⟨a, hresult, himp a s ha⟩

theorem succeeds_ofJob {job : Job α} {wanted : α → σ → Prop} (h : job.Ends host s wanted) :
    (ofJob job).Succeeds host s wanted := by
  show Job.Ends host (job.bind _) s _
  rw [Job.ends_bind]
  exact Job.Ends.mono h fun a s ha => ⟨a, rfl, ha⟩

theorem ofResult_bind (a : α) (f : α → Work β) : ofResult (.ok a) >>= f = f a := rfl

theorem succeeds_ofResult {result : Except Fault α} {a : α} {wanted : α → σ → Prop}
    (hresult : result = .ok a) (h : wanted a s) : (ofResult result).Succeeds host s wanted :=
  ⟨a, hresult, h⟩

theorem succeeds_ofExcept {ε : Type} {fault : ε → Fault} {job : Job (Except ε α)}
    {wanted : α → σ → Prop}
    (h : job.Ends host s fun answer s => ∃ a, answer = .ok a ∧ wanted a s) :
    (ofExcept fault job).Succeeds host s wanted := by
  show Job.Ends host (job.bind _) s _
  rw [Job.ends_bind]
  refine Job.Ends.mono h ?_
  rintro _ s ⟨a, rfl, ha⟩
  exact ⟨a, rfl, ha⟩

theorem succeeds_outcome {wanted : Except Fault α → σ → Prop}
    (h : work.Succeeds host s fun a s => wanted (.ok a) s) :
    work.outcome.Succeeds host s wanted := by
  refine succeeds_ofJob (Job.Ends.mono h ?_)
  rintro _ s ⟨a, rfl, ha⟩
  exact ha

end Work

/-- A call that the server answers. -/
theorem Session.succeeds_call {session : Session} {call : Session.Call} {s : σ}
    {reply : call.Reply} {wanted : call.Reply → σ → Prop}
    (hreply : (host.answer (.session session call) s).1.reply = .ok (.ok reply))
    (h : wanted reply (host.answer (.session session call) s).2) :
    (session.call call).Succeeds host s wanted :=
  Work.succeeds_ofExcept (Job.ends_request hreply ⟨reply, rfl, h⟩)

end SqlBackup
