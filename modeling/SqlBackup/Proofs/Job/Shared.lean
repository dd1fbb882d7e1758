import Mathlib
import SqlBackup.Proofs.Job.Asks

/-!
# Jobs that share a host

Between two requests of a job others may change the host, but not the part that the job has for its
own. What a job does is therefore told for every state that agrees with its own part; nothing else
is known of the state when the next request is made.
-/
namespace SqlBackup

variable {σ γ α β : Type}

/-- What a job has of a host that it shares with others. -/
structure Share (σ γ : Type) where
  /-- What holds of the host at every time. -/
  kept : σ → Prop
  /-- The changes that the job may make. -/
  allowed : σ → σ → Prop
  /-- The part that only the job changes. -/
  own : σ → γ

/-- The share of a job that is alone. -/
def Share.whole : Share σ σ := ⟨fun _ => True, fun _ _ => True, id⟩

/-- The request keeps what is kept and makes allowed changes, and a reply and the job's own part
then are as wanted. -/
def Request.Works (host : Host σ) (share : Share σ γ) (request : Request) (own : γ)
    (wanted : request.Reply → γ → Prop) : Prop :=
  ∀ s, share.kept s → share.own s = own →
    share.kept (host.answer request s).2 ∧ share.allowed s (host.answer request s).2 ∧
      ∀ reply, (host.answer request s).1.reply = .ok reply →
        wanted reply (share.own (host.answer request s).2)

/-- Every request of the job keeps what is kept and makes allowed changes, and a value that the job
ends with and its own part then are as wanted. -/
def Job.Works (host : Host σ) (share : Share σ γ) : Job α → γ → (α → γ → Prop) → Prop
  | .done a, own, wanted => wanted a own
  | .panic _, _, _ => True
  | .ask request next, own, wanted =>
      request.Works host share own fun reply own => (next reply).Works host share own wanted

variable {host : Host σ} {share : Share σ γ} {own : γ}

/-- What a job that is alone is answered depends on nobody else. -/
theorem Request.works_whole {request : Request} {s : σ} {wanted : request.Reply → σ → Prop}
    (h : ∀ reply, (host.answer request s).1.reply = .ok reply →
      wanted reply (host.answer request s).2) : request.Works host .whole s wanted := by
  rintro _ - rfl
  exact ⟨trivial, trivial, h⟩

theorem Request.Works.mono {request : Request} {wanted wanted' : request.Reply → γ → Prop}
    (h : request.Works host share own wanted) (himp : ∀ reply own, wanted reply own →
      wanted' reply own) : request.Works host share own wanted' := by
  intro s hkept hown
  obtain ⟨hkept', hallowed, hreply⟩ := h s hkept hown
  exact ⟨hkept', hallowed, fun reply hr => himp _ _ (hreply reply hr)⟩

namespace Job

variable {job : Job α} {f : α → Job β}

theorem Works.mono {wanted wanted' : α → γ → Prop} (h : job.Works host share own wanted)
    (himp : ∀ a own, wanted a own → wanted' a own) : job.Works host share own wanted' := by
  induction job generalizing own with
  | done a => exact himp a own h
  | panic text => trivial
  | ask request next ih => exact Request.Works.mono h fun reply own' hnext => ih reply hnext

theorem works_bind {wanted : β → γ → Prop} : (job.bind f).Works host share own wanted ↔
    job.Works host share own fun a own => (f a).Works host share own wanted := by
  induction job generalizing own with
  | done a => rfl
  | panic text => rfl
  | ask request next ih => simp only [ask_bind, Works, ih]

theorem Works.and {wanted wanted' : α → γ → Prop} (h : job.Works host share own wanted)
    (h' : job.Works host share own wanted') :
    job.Works host share own fun a own => wanted a own ∧ wanted' a own := by
  induction job generalizing own with
  | done a => exact ⟨h, h'⟩
  | panic text => trivial
  | ask request next ih =>
    intro s hkept hown
    obtain ⟨hkept', hallowed, hreply⟩ := h s hkept hown
    obtain ⟨-, -, hreply'⟩ := h' s hkept hown
    exact ⟨hkept', hallowed, fun reply hr => ih reply (hreply reply hr) (hreply' reply hr)⟩

/-- A job works on its share if each of the requests that it makes does. -/
theorem Asks.works {allowed : Request → Prop} {wanted : α → Prop} (h : job.Asks allowed wanted)
    (hallowed : ∀ request own, allowed request →
      request.Works host share own fun _ _ => True) :
    job.Works host share own fun a _ => wanted a := by
  induction job generalizing own with
  | done a => exact h
  | panic text => trivial
  | ask request next ih =>
    intro s hkept hown
    obtain ⟨hkept', hchange, -⟩ := hallowed request own h.1 s hkept hown
    exact ⟨hkept', hchange, fun reply _ => ih reply (h.2 reply)⟩

/-- A job that is alone works what it runs. -/
theorem works_run (host : Host σ) (job : Job α) (s : σ) : job.Works host .whole s fun a s' =>
    (job.run host s).1.result = .ok a ∧ s' = (job.run host s).2 := by
  induction job generalizing s with
  | done a => exact ⟨rfl, rfl⟩
  | panic text => trivial
  | ask request next ih =>
    refine Request.works_whole fun reply hreply => ?_
    simp only [Job.run, hreply]
    exact ih reply _

/-- What a job that is alone works, it runs. -/
theorem Works.run {wanted : α → σ → Prop} {s : σ} {a : α}
    (h : job.Works host .whole s wanted) (ha : (job.run host s).1.result = .ok a) :
    wanted a (job.run host s).2 := by
  induction job generalizing s with
  | done b =>
    cases ha
    exact h
  | panic text => cases ha
  | ask request next ih =>
    obtain ⟨-, -, hreply⟩ := h s trivial rfl
    rw [Job.run] at ha ⊢
    cases hr : (host.answer request s).1.reply with
    | error text =>
      simp only [hr] at ha
      cases ha
    | ok reply =>
      simp only [hr] at ha ⊢
      exact ih reply (hreply reply hr) ha

end Job

/-- What is wanted of a result: one thing of a value, another of a fault. -/
def Settled (wanted : α → γ → Prop) (failing : Fault → γ → Prop) :
    Except Fault α → γ → Prop
  | .ok a, own => wanted a own
  | .error fault, own => failing fault own

/-- Every request of the work keeps what is kept and makes allowed changes, and the value or the
fault that the work ends with and its own part then are as wanted. -/
def Work.Works (host : Host σ) (share : Share σ γ) (work : Work α) (own : γ)
    (wanted : α → γ → Prop) (failing : Fault → γ → Prop) : Prop :=
  Job.Works host share work.run own (Settled wanted failing)

namespace Work

variable {work : Work α} {f : α → Work β} {failing : Fault → γ → Prop}

theorem works_pure {a : α} {wanted : α → γ → Prop} (h : wanted a own) :
    (pure a : Work α).Works host share own wanted failing := h

theorem works_fail {fault : Fault} {wanted : α → γ → Prop} (h : failing fault own) :
    (fail fault : Work α).Works host share own wanted failing := h

theorem Works.bind {m : α → γ → Prop} {wanted : β → γ → Prop}
    (h : work.Works host share own m failing)
    (hf : ∀ a own, m a own → (f a).Works host share own wanted failing) :
    (work >>= f).Works host share own wanted failing := by
  show Job.Works host share (work.run.bind _) own _
  rw [Job.works_bind]
  refine Job.Works.mono h fun result own' hresult => ?_
  cases result with
  | error fault => exact hresult
  | ok a => exact hf a own' hresult

theorem Works.mono {wanted wanted' : α → γ → Prop} {failing' : Fault → γ → Prop}
    (h : work.Works host share own wanted failing)
    (himp : ∀ a own, wanted a own → wanted' a own)
    (himp' : ∀ fault own, failing fault own → failing' fault own) :
    work.Works host share own wanted' failing' := by
  refine Job.Works.mono h fun result own' hresult => ?_
  cases result with
  | error fault => exact himp' fault own' hresult
  | ok a => exact himp a own' hresult

theorem works_ofJob {job : Job α} {wanted : α → γ → Prop} (h : job.Works host share own wanted) :
    (ofJob job).Works host share own wanted failing := by
  show Job.Works host share (job.bind _) own _
  rw [Job.works_bind]
  exact Job.Works.mono h fun _ _ ha => ha

theorem works_ofResult {result : Except Fault α} {wanted : α → γ → Prop}
    (h : Settled wanted failing result own) :
    (ofResult result).Works host share own wanted failing := h

/-- A request whose failures become faults. -/
theorem works_ofExcept {ε : Type} {fault : ε → Fault} {job : Job (Except ε α)}
    {wanted : α → γ → Prop} (h : job.Works host share own fun answer own =>
      Settled wanted failing (answer.mapError fault) own) :
    (ofExcept fault job).Works host share own wanted failing := by
  show Job.Works host share (job.bind _) own _
  rw [Job.works_bind]
  exact h

theorem works_mapFault {g : Fault → Fault} {wanted : α → γ → Prop}
    (h : work.Works host share own wanted fun fault => failing (g fault)) :
    (work.mapFault g).Works host share own wanted failing := by
  show Job.Works host share (work.run.bind _) own _
  rw [Job.works_bind]
  refine Job.Works.mono h fun result own' hresult => ?_
  cases result with
  | error fault => exact hresult
  | ok a => exact hresult

theorem works_outcome {wanted : Except Fault α → γ → Prop}
    (h : work.Works host share own (fun a => wanted (.ok a)) fun fault => wanted (.error fault)) :
    work.outcome.Works host share own wanted failing := by
  refine works_ofJob (Job.Works.mono h fun result own' hresult => ?_)
  cases result with
  | error fault => exact hresult
  | ok a => exact hresult

end Work

end SqlBackup
