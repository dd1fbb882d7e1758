import Mathlib
import SqlBackup.Job

/-!
# What jobs ask

Whatever the replies are, a job makes only requests of some kind, and what it ends with is as
wanted. Nothing is said here of how a host answers.
-/
namespace SqlBackup

variable {α β : Type} {allowed : Request → Prop}

/-- Whatever it is answered, the job makes only these requests, and a value that it ends with is
as wanted. -/
def Job.Asks (allowed : Request → Prop) : Job α → (α → Prop) → Prop
  | .done a, wanted => wanted a
  | .panic _, _ => True
  | .ask request next, wanted => allowed request ∧ ∀ reply, (next reply).Asks allowed wanted

namespace Job

variable {job : Job α} {f : α → Job β}

theorem asks_bind {wanted : β → Prop} : (job.bind f).Asks allowed wanted ↔
    job.Asks allowed fun a => (f a).Asks allowed wanted := by
  induction job with
  | done a => rfl
  | panic text => rfl
  | ask request next ih => simp only [ask_bind, Asks, ih]

theorem Asks.mono {wanted wanted' : α → Prop} (h : job.Asks allowed wanted)
    (himp : ∀ a, wanted a → wanted' a) : job.Asks allowed wanted' := by
  induction job with
  | done a => exact himp a h
  | panic text => exact h
  | ask request next ih => exact ⟨h.1, fun reply => ih reply (h.2 reply)⟩

theorem Asks.widen {allowed' : Request → Prop} {wanted : α → Prop} (h : job.Asks allowed wanted)
    (himp : ∀ request, allowed request → allowed' request) : job.Asks allowed' wanted := by
  induction job with
  | done a => exact h
  | panic text => exact h
  | ask request next ih => exact ⟨himp request h.1, fun reply => ih reply (h.2 reply)⟩

/-- Of a job of which nothing is to be known. -/
theorem asks_true (job : Job α) : job.Asks (fun _ => True) fun _ => True := by
  induction job with
  | done a => trivial
  | panic text => trivial
  | ask request next ih => exact ⟨trivial, ih⟩

theorem asks_request {request : Request} (h : allowed request) {wanted : request.Reply → Prop}
    (hreply : ∀ reply, wanted reply) : (Job.request request).Asks allowed wanted :=
  ⟨h, hreply⟩

end Job

/-- Whatever it is answered, the work makes only these requests, and a value that it yields is as
wanted. -/
def Work.Asks (allowed : Request → Prop) (work : Work α) (wanted : α → Prop) : Prop :=
  Job.Asks allowed work.run fun result => ∀ a, result = .ok a → wanted a

namespace Work

variable {work : Work α} {f : α → Work β}

theorem asks_pure {a : α} {wanted : α → Prop} (h : wanted a) :
    (pure a : Work α).Asks allowed wanted := by
  rintro _ ⟨⟩
  exact h

theorem asks_fail {fault : Fault} {wanted : α → Prop} :
    (fail fault : Work α).Asks allowed wanted := by
  rintro _ ⟨⟩

theorem Asks.bind {m : α → Prop} {wanted : β → Prop} (h : work.Asks allowed m)
    (hf : ∀ a, m a → (f a).Asks allowed wanted) : (work >>= f).Asks allowed wanted := by
  show Job.Asks allowed (work.run.bind _) _
  rw [Job.asks_bind]
  refine Job.Asks.mono h fun result hresult => ?_
  cases result with
  | error fault =>
    rintro _ ⟨⟩
  | ok a => exact hf a (hresult a rfl)

theorem Asks.widen {allowed' : Request → Prop} {wanted : α → Prop} (h : work.Asks allowed wanted)
    (himp : ∀ request, allowed request → allowed' request) : work.Asks allowed' wanted :=
  Job.Asks.widen h himp

theorem asks_ofJob {job : Job α} {wanted : α → Prop} (h : job.Asks allowed wanted) :
    (ofJob job).Asks allowed wanted := by
  show Job.Asks allowed (job.bind _) _
  rw [Job.asks_bind]
  refine Job.Asks.mono h fun a ha => ?_
  rintro _ ⟨⟩
  exact ha

theorem asks_ofResult (result : Except Fault α) :
    (ofResult result).Asks allowed fun _ => True := fun _ _ => trivial

theorem asks_ofResult_bind {result : Except Fault α} {wanted : β → Prop}
    (h : ∀ a, result = .ok a → (f a).Asks allowed wanted) :
    (ofResult result >>= f).Asks allowed wanted := by
  cases result with
  | error fault => exact (asks_fail : (fail fault : Work β).Asks allowed wanted)
  | ok a => exact h a rfl

theorem asks_ofExcept {ε : Type} {fault : ε → Fault} {job : Job (Except ε α)}
    {wanted : α → Prop} (h : job.Asks allowed fun answer => ∀ a, answer = .ok a → wanted a) :
    (ofExcept fault job).Asks allowed wanted := by
  show Job.Asks allowed (job.bind _) _
  rw [Job.asks_bind]
  refine Job.Asks.mono h fun answer hanswer => ?_
  cases answer with
  | error e =>
    rintro _ ⟨⟩
  | ok a =>
    rintro _ ⟨⟩
    exact hanswer a rfl

theorem asks_mapFault {g : Fault → Fault} {wanted : α → Prop} (h : work.Asks allowed wanted) :
    (work.mapFault g).Asks allowed wanted := by
  show Job.Asks allowed (work.run.bind _) _
  rw [Job.asks_bind]
  refine Job.Asks.mono h fun result hresult => ?_
  cases result with
  | error fault =>
    rintro _ ⟨⟩
  | ok a => exact hresult

theorem asks_outcome {wanted : α → Prop} (h : work.Asks allowed wanted) :
    work.outcome.Asks allowed fun result => ∀ a, result = .ok a → wanted a := asks_ofJob h

theorem asks_true (work : Work α) : work.Asks (fun _ => True) fun _ => True :=
  (Job.asks_true work.run).mono fun _ _ _ _ => trivial

/-! ### Single requests -/

theorem asks_request {r : Request} (h : allowed r) :
    (ofJob (.request r)).Asks allowed fun _ => True :=
  asks_ofJob (Job.asks_request h fun _ => trivial)

theorem asks_call {s : Session} {call : Session.Call} (h : allowed (.session s call)) :
    (s.call call).Asks allowed fun _ => True :=
  asks_ofExcept (Job.asks_request h fun _ _ _ => trivial)

theorem asks_onPath {path : String} {job : Job (Except IoFault α)}
    (h : job.Asks allowed fun _ => True) : (onPath path job).Asks allowed fun _ => True :=
  asks_ofExcept (h.mono fun _ _ _ _ => trivial)

end Work

end SqlBackup
