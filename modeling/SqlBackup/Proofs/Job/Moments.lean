import Mathlib
import SqlBackup.Proofs.Job.Asks
import SqlBackup.Proofs.Pool.Turns

/-!
# Jobs at every moment

A job can be cut off between any two of its requests. What it has asked by then and what is left of
it tell where it stands: whatever holds at the start and is kept by every request that the job may
make holds at every moment, and not only at the end.
-/
namespace SqlBackup

variable {σ ε α : Type} {host : Host σ}

namespace Job

/-- A host has answered these requests of a job, and this is left of it. -/
inductive Advances (host : Host σ) (job : Job α) (s : σ) : List Asked → Job α → σ → Prop
  | nothing : Advances host job s [] job s
  | ask {talk request next t} (h : Advances host job s talk (.ask request next) t) :
      Advances host job s (talk ++ [⟨request, (host.answer request t).1.reply⟩])
        (.resume next (host.answer request t).1.reply) (host.answer request t).2

/-- The call on a file that a job waits for. -/
def call? : Job α → Option Files.Call
  | ask (.file call) _ => some call
  | _ => none

/-- The value that a job has come to. -/
def value? : Job (Except ε α) → Option α
  | done (.ok a) => some a
  | _ => none

theorem value?_eq_some {job : Job (Except ε α)} {a : α} :
    job.value? = some a ↔ job = .done (.ok a) := by
  rcases job with (fault | b) | text | ⟨request, next⟩ <;> simp [value?]

variable {job rest : Job α} {talk : List Asked} {s s' : σ} {a : α}

/-! ### Moments of a run -/

theorem Advances.cons {request : Request} {next : request.Reply → Job α}
    (h : (resume next (host.answer request s).1.reply).Advances host (host.answer request s).2
      talk rest s') :
    (Job.ask request next).Advances host s (⟨request, (host.answer request s).1.reply⟩ :: talk) rest
      s' := by
  induction h with
  | nothing => exact .ask .nothing
  | ask _ ih => exact .ask ih

theorem bind_resume {β : Type} {f : α → Job β} {request : Request} {next : request.Reply → Job α}
    (answer : Except String request.Reply) :
    (resume next answer).bind f = resume (fun reply => (next reply).bind f) answer := by
  cases answer <;> rfl

/-- What follows a job waits while the job goes on. -/
theorem Advances.bind {β : Type} {f : α → Job β} (h : job.Advances host s talk rest s') :
    (job.bind f).Advances host s talk (rest.bind f) s' := by
  induction h with
  | nothing => exact .nothing
  | @ask talk request next t _ ih =>
    rw [bind_resume]
    exact .ask ih

/-- A job in two parts is still in the first, or it is in the second. -/
theorem Advances.bind_cases {β : Type} {f : α → Job β} {rest : Job β}
    (h : (job.bind f).Advances host s talk rest s') :
    (∃ rest', job.Advances host s talk rest' s' ∧ rest = rest'.bind f ∧ ∀ a, rest' ≠ .done a) ∨
      ∃ first second a t, talk = first ++ second ∧ job.Advances host s first (.done a) t ∧
        (f a).Advances host t second rest s' := by
  have hcases {talk : List Asked} {rest' : Job α} {t : σ}
      (hfirst : job.Advances host s talk rest' t) :
      (∃ rest'', job.Advances host s talk rest'' t ∧ rest'.bind f = rest''.bind f ∧
        ∀ a, rest'' ≠ .done a) ∨
      ∃ first second a u, talk = first ++ second ∧ job.Advances host s first (.done a) u ∧
        (f a).Advances host u second (rest'.bind f) t := by
    cases rest' with
    | done a => exact .inr ⟨talk, [], a, t, (List.append_nil talk).symm, hfirst, .nothing⟩
    | panic text => exact .inl ⟨_, hfirst, rfl, by simp⟩
    | ask request next => exact .inl ⟨_, hfirst, rfl, by simp⟩
  induction h with
  | nothing => exact hcases .nothing
  | @ask talk request next t _ ih =>
    rcases ih with ⟨rest', hadvances, hrest, hopen⟩ | ⟨first, second, a, u, rfl, hfirst, hsecond⟩
    · rcases rest' with a | text | ⟨request', next'⟩
      · exact absurd rfl (hopen a)
      · cases hrest
      · cases hrest
        rw [← bind_resume]
        exact hcases hadvances.ask
    · refine .inr ⟨first, _, a, u, ?_, hfirst, hsecond.ask⟩
      rw [List.append_assoc]

theorem call?_bind {β : Type} {f : α → Job β} (h : ∀ a, job ≠ .done a) :
    (job.bind f).call? = job.call? := by
  rcases job with a | text | ⟨request, next⟩
  · exact absurd rfl (h a)
  · rfl
  · cases request <;> rfl

/-- What a host answers is one of the answers that a job may get. -/
theorem Advances.leads (h : job.Advances host s talk rest s') : job.Leads talk rest := by
  induction h with
  | nothing => exact .nothing
  | ask _ ih => exact .ask ih _

/-- A job that makes a request first has made it, or has done nothing. -/
theorem Leads.head_cases {request : Request} {next : request.Reply → Job α}
    (h : (Job.ask request next).Leads talk rest) :
    talk = [] ∧ rest = .ask request next ∨ ∃ answer later, talk = ⟨request, answer⟩ :: later := by
  induction h with
  | nothing => exact .inl ⟨rfl, rfl⟩
  | ask _ answer ih =>
    rcases ih with ⟨rfl, hrest⟩ | ⟨first, later, rfl⟩
    · cases hrest
      exact .inr ⟨answer, [], rfl⟩
    · exact .inr ⟨first, _, rfl⟩

/-- What is left of a job ends as the whole of it does. -/
theorem Advances.run (h : job.Advances host s talk rest s') :
    (job.run host s).1.result = (rest.run host s').1.result ∧
      (job.run host s).2 = (rest.run host s').2 := by
  induction h with
  | nothing => exact ⟨rfl, rfl⟩
  | @ask talk request next t _ ih =>
    rw [ih.1, ih.2, Job.run]
    cases hreply : (host.answer request t).1.reply with
    | error text =>
      simp only [hreply]
      exact ⟨rfl, rfl⟩
    | ok reply =>
      simp only [hreply]
      exact ⟨rfl, rfl⟩

/-- The end of a run is one of its moments. -/
theorem exists_advances (h : (job.run host s).1.result = .ok a) :
    ∃ talk, job.Advances host s talk (.done a) (job.run host s).2 := by
  induction job generalizing s with
  | done b =>
    cases h
    exact ⟨[], .nothing⟩
  | panic text => cases h
  | ask request next ih =>
    rw [Job.run] at h ⊢
    cases hreply : (host.answer request s).1.reply with
    | error text =>
      simp only [hreply] at h
      cases h
    | ok reply =>
      simp only [hreply] at h ⊢
      obtain ⟨talk, htalk⟩ := ih reply h
      have hnext : (resume next (host.answer request s).1.reply).Advances host
          (host.answer request s).2 talk (.done a)
          ((next reply).run host (host.answer request s).2).2 := by
        rw [hreply]
        exact htalk
      exact ⟨_, hnext.cons⟩

/-! ### What is kept at every moment -/

variable {allowed : Request → Prop} {wanted : α → Prop}

theorem Asks.resume {request : Request} {next : request.Reply → Job α}
    (h : (ask request next).Asks allowed wanted) (answer : Except String request.Reply) :
    (Job.resume next answer).Asks allowed wanted := by
  cases answer with
  | error text => trivial
  | ok reply => exact h.2 reply

theorem Asks.of_call? {call : Files.Call} (h : job.Asks allowed wanted)
    (hcall : job.call? = some call) : allowed (.file call) := by
  rcases job with a | text | ⟨request, next⟩
  · cases hcall
  · cases hcall
  · cases request with
    | file call' =>
      obtain rfl := Option.some.inj hcall
      exact h.1
    | _ => cases hcall

/-- What every request that a job may make keeps, holds at every moment. -/
theorem Asks.advances (h : job.Asks allowed wanted) (kept : List Asked → σ → Prop)
    (hkept : ∀ talk request s, allowed request → kept talk s →
      kept (talk ++ [⟨request, (host.answer request s).1.reply⟩]) (host.answer request s).2)
    {before : List Asked} (hs : kept before s) (hadvances : job.Advances host s talk rest s') :
    kept (before ++ talk) s' ∧ rest.Asks allowed wanted := by
  induction hadvances with
  | nothing => exact ⟨(List.append_nil before).symm ▸ hs, h⟩
  | @ask talk request next t _ ih =>
    obtain ⟨hkept', hrest⟩ := ih
    refine ⟨?_, hrest.resume _⟩
    rw [← List.append_assoc]
    exact hkept _ _ _ hrest.1 hkept'

/-- Wherever its requests lead a job, it has made only those that it may make. -/
theorem Asks.leads (h : job.Asks allowed wanted) (hleads : job.Leads talk rest) :
    (∀ asked ∈ talk, allowed asked.request) ∧ rest.Asks allowed wanted := by
  induction hleads with
  | nothing => exact ⟨by simp, h⟩
  | ask _ answer ih =>
    obtain ⟨htalk, hrest⟩ := ih
    exact ⟨List.forall_mem_append.mpr ⟨htalk, List.forall_mem_singleton.mpr hrest.1⟩,
      hrest.resume answer⟩

/-- What a job is run to is as wanted. -/
theorem Asks.run (h : job.Asks allowed wanted) (hrun : (job.run host s).1.result = .ok a) :
    wanted a := by
  obtain ⟨talk, htalk⟩ := exists_advances hrun
  exact (h.leads htalk.leads).2

/-! ### The request that settles a job -/

/-- Whatever it is answered, the job comes to a value by a request that settles it, and only so, and
asks nothing behind that. -/
def YieldsBy (settles : Asked → Prop) : Job (Except ε α) → Prop
  | done (.ok _) => False
  | done (.error _) => True
  | panic _ => True
  | ask request next =>
      (∀ text, ¬ settles ⟨request, .error text⟩) ∧ ∀ reply,
        (settles ⟨request, .ok reply⟩ → (next reply).value?.isSome = true) ∧
        (¬ settles ⟨request, .ok reply⟩ → (next reply).YieldsBy settles)

/-- What follows a job may ask for more only where the job came to no value. -/
theorem YieldsBy.bind {ε' β : Type} {settles : Asked → Prop} {job : Job (Except ε α)}
    {f : Except ε α → Job (Except ε' β)} (h : job.YieldsBy settles)
    (hvalue : ∀ a, (f (.ok a)).value?.isSome = true)
    (hfault : ∀ fault, (f (.error fault)).YieldsBy settles) : (job.bind f).YieldsBy settles := by
  induction job with
  | done result =>
    cases result with
    | error fault => exact hfault fault
    | ok a => exact h.elim
  | panic text => trivial
  | ask request next ih =>
    refine ⟨h.1, fun reply => ⟨fun hsettles => ?_, fun hsettles => ?_⟩⟩
    · obtain ⟨a, ha⟩ := Option.isSome_iff_exists.mp ((h.2 reply).1 hsettles)
      have hdone := value?_eq_some.mp ha
      show ((next reply).bind f).value?.isSome = true
      rw [hdone]
      exact hvalue a
    · exact ih reply ((h.2 reply).2 hsettles)

/-- A request that settles nothing can be made first. -/
theorem yieldsBy_ask {settles : Asked → Prop} {request : Request}
    {next : request.Reply → Job (Except ε α)} (hsettles : ∀ answer, ¬ settles ⟨request, answer⟩)
    (h : ∀ reply, (next reply).YieldsBy settles) : (Job.ask request next).YieldsBy settles :=
  ⟨fun _ => hsettles _, fun reply => ⟨fun hyes => absurd hyes (hsettles _), fun _ => h reply⟩⟩

/-- At every moment a job either has come to its value, and then it has made the request that settles
it, or it has done neither. -/
theorem YieldsBy.leads {settles : Asked → Prop} {job rest : Job (Except ε α)}
    (h : job.YieldsBy settles) (hleads : job.Leads talk rest) :
    (∃ asked ∈ talk, settles asked) ∧ rest.value?.isSome = true ∨
      (∀ asked ∈ talk, ¬ settles asked) ∧ rest.YieldsBy settles := by
  induction hleads with
  | nothing => exact .inr ⟨by simp, h⟩
  | @ask talk request next _ answer ih =>
    rcases ih with ⟨-, hvalue⟩ | ⟨htalk, hrest⟩
    · cases hvalue
    · have hlast (asked : Asked) (hasked : ¬ settles asked) :
          ∀ other ∈ talk ++ [asked], ¬ settles other := by
        intro other hother
        rcases List.mem_append.mp hother with hold | hnew
        · exact htalk other hold
        · rwa [List.mem_singleton.mp hnew]
      cases answer with
      | error text => exact .inr ⟨hlast _ (hrest.1 text), trivial⟩
      | ok reply =>
        by_cases hsettles : settles ⟨request, .ok reply⟩
        · exact .inl ⟨⟨_, by simp, hsettles⟩, (hrest.2 reply).1 hsettles⟩
        · exact .inr ⟨hlast _ hsettles, (hrest.2 reply).2 hsettles⟩

/-- Work that does not settle anything can be done first. -/
theorem YieldsBy.behind {ε' β : Type} {settles : Asked → Prop} {job : Job (Except ε α)}
    {f : Except ε α → Job (Except ε' β)} (h : job.Asks allowed fun _ => True)
    (hsettles : ∀ request answer, allowed request → ¬ settles ⟨request, answer⟩)
    (hf : ∀ a, (f a).YieldsBy settles) : (job.bind f).YieldsBy settles := by
  induction job with
  | done a => exact hf a
  | panic text => trivial
  | ask request next ih =>
    exact yieldsBy_ask (fun answer => hsettles request answer h.1) fun reply => ih reply (h.2 reply)

theorem YieldsBy.value?_eq_none {settles : Asked → Prop} {job : Job (Except ε α)}
    (h : job.YieldsBy settles) : job.value? = none := by
  rcases job with (fault | b) | text | ⟨request, next⟩
  · rfl
  · exact h.elim
  · rfl
  · rfl

/-! ### Requests that depend on those before -/

/-- What a job asks, and what it ends with, depends on what has been asked so far. -/
def AsksSince (allowed : List Asked → Request → Prop) (wanted : List Asked → α → Prop) :
    List Asked → Job α → Prop
  | talk, done a => wanted talk a
  | _, panic _ => True
  | talk, ask request next => allowed talk request ∧
      ∀ reply, AsksSince allowed wanted (talk ++ [⟨request, .ok reply⟩]) (next reply)

section Since

variable {β : Type} {due : List Asked → Request → Prop} {ends : List Asked → α → Prop}

theorem asksSince_bind {f : α → Job β} {ends : List Asked → β → Prop} :
    (job.bind f).AsksSince due ends talk ↔
      job.AsksSince due (fun talk a => (f a).AsksSince due ends talk) talk := by
  induction job generalizing talk with
  | done a => rfl
  | panic text => rfl
  | ask request next ih => simp only [ask_bind, AsksSince, ih]

theorem AsksSince.mono {ends' : List Asked → α → Prop} (h : job.AsksSince due ends talk)
    (himp : ∀ talk a, ends talk a → ends' talk a) : job.AsksSince due ends' talk := by
  induction job generalizing talk with
  | done a => exact himp talk a h
  | panic text => exact h
  | ask request next ih => exact ⟨h.1, fun reply => ih reply (h.2 reply)⟩

/-- Where every request keeps what has been asked as it is to be, nothing else is to be known of
it. -/
theorem Asks.since (h : job.Asks allowed wanted) (kept : List Asked → Prop)
    (hdue : ∀ talk request, kept talk → allowed request → due talk request)
    (hkept : ∀ talk asked, kept talk → allowed asked.request → kept (talk ++ [asked]))
    (htalk : kept talk) : job.AsksSince due (fun talk a => kept talk ∧ wanted a) talk := by
  induction job generalizing talk with
  | done a => exact ⟨htalk, h⟩
  | panic text => trivial
  | ask request next ih =>
    exact ⟨hdue talk request htalk h.1, fun reply => ih reply (h.2 reply) (hkept _ _ htalk h.1)⟩

theorem asksSince_true (job : Job α) (talk : List Asked) :
    job.AsksSince (fun _ _ => True) (fun _ _ => True) talk :=
  ((asks_true job).since (fun _ => True) (fun _ _ _ _ => trivial) (fun _ _ _ _ => trivial)
    trivial).mono fun _ _ _ => trivial

/-- What every request keeps of what has been asked holds at the end. -/
theorem AsksSince.keep (h : job.AsksSince due ends talk) (kept : List Asked → Prop)
    (hkept : ∀ talk asked, kept talk → due talk asked.request → kept (talk ++ [asked]))
    (htalk : kept talk) : job.AsksSince due (fun talk a => kept talk ∧ ends talk a) talk := by
  induction job generalizing talk with
  | done a => exact ⟨htalk, h⟩
  | panic text => trivial
  | ask request next ih => exact ⟨h.1, fun reply => ih reply (h.2 reply) (hkept _ _ htalk h.1)⟩

/-- What is wanted of the end whatever has been asked is so behind any requests. -/
theorem AsksSince.and (h : job.AsksSince due ends talk) (hasks : job.Asks allowed wanted) :
    job.AsksSince due (fun talk a => ends talk a ∧ wanted a) talk := by
  induction job generalizing talk with
  | done a => exact ⟨h, hasks⟩
  | panic text => trivial
  | ask request next ih => exact ⟨h.1, fun reply => ih reply (h.2 reply) (hasks.2 reply)⟩

theorem AsksSince.resume {request : Request} {next : request.Reply → Job α}
    (h : (ask request next).AsksSince due ends talk) (answer : Except String request.Reply) :
    (Job.resume next answer).AsksSince due ends (talk ++ [⟨request, answer⟩]) := by
  cases answer with
  | error text => trivial
  | ok reply => exact h.2 reply

/-- What every request keeps holds wherever its requests lead a job. -/
theorem AsksSince.leads (h : job.AsksSince due ends []) (kept : List Asked → Prop)
    (hkept : ∀ talk asked, kept talk → due talk asked.request → kept (talk ++ [asked]))
    (hstart : kept []) (hleads : job.Leads talk rest) : kept talk ∧ rest.AsksSince due ends talk := by
  induction hleads with
  | nothing => exact ⟨hstart, h⟩
  | ask _ answer ih => exact ⟨hkept _ _ ih.1 ih.2.1, ih.2.resume answer⟩

end Since

end Job

namespace Work

variable {β : Type} {talk : List Asked} {due : List Asked → Request → Prop}
  {ends : List Asked → Except Fault β → Prop}

/-- Work that does not settle anything can be done first. -/
theorem yieldsBy_bind {allowed : Request → Prop} {settles : Asked → Prop} {work : Work α}
    {f : α → Work β} {wanted : α → Prop} (h : work.Asks allowed wanted)
    (hsettles : ∀ request answer, allowed request → ¬ settles ⟨request, answer⟩)
    (hf : ∀ a, (f a).run.YieldsBy settles) : (work >>= f).run.YieldsBy settles := by
  refine Job.YieldsBy.behind (Job.Asks.mono h fun _ _ => trivial) hsettles fun result => ?_
  cases result with
  | error fault => trivial
  | ok a => exact hf a

/-- What a second part asks depends on what the first has asked. -/
theorem asksSince_bind {work : Work α} {f : α → Work β} {m : List Asked → Except Fault α → Prop}
    (h : work.run.AsksSince due m talk)
    (hfault : ∀ talk fault, m talk (.error fault) → ends talk (.error fault))
    (hf : ∀ talk a, m talk (.ok a) → (f a).run.AsksSince due ends talk) :
    (work >>= f).run.AsksSince due ends talk := by
  show (work.run.bind _).AsksSince due ends talk
  rw [Job.asksSince_bind]
  refine h.mono fun talk result hresult => ?_
  cases result with
  | error fault => exact hfault talk fault hresult
  | ok a => exact hf talk a hresult

/-- Where nothing is to be known of a fault, only the value of the first part is followed. -/
theorem asksSince_bind_ok {work : Work α} {f : α → Work β} {m : List Asked → Except Fault α → Prop}
    {ends : List Asked → β → Prop} (h : work.run.AsksSince due m talk)
    (hf : ∀ talk a, m talk (.ok a) →
      (f a).run.AsksSince due (fun talk result => ∀ b, result = .ok b → ends talk b) talk) :
    (work >>= f).run.AsksSince due (fun talk result => ∀ b, result = .ok b → ends talk b) talk :=
  asksSince_bind h (fun _ _ _ _ hno => by cases hno) hf

theorem asksSince_ofJob {job : Job α} {f : α → Work β} {m : List Asked → α → Prop}
    (h : job.AsksSince due m talk) (hf : ∀ talk a, m talk a → (f a).run.AsksSince due ends talk) :
    (ofJob job >>= f).run.AsksSince due ends talk := by
  show ((job.bind _).bind _).AsksSince due ends talk
  rw [Job.bind_assoc, Job.asksSince_bind]
  exact h.mono hf

theorem asksSince_request {request : Request} {f : request.Reply → Work β} (h : due talk request)
    (hf : ∀ reply, (f reply).run.AsksSince due ends (talk ++ [⟨request, .ok reply⟩])) :
    (ofJob (.request request) >>= f).run.AsksSince due ends talk := ⟨h, hf⟩

theorem asksSince_ofExcept {ε : Type} {fault : ε → Fault} {job : Job (Except ε α)} {f : α → Work β}
    {m : List Asked → Except ε α → Prop} (h : job.AsksSince due m talk)
    (hfault : ∀ talk cause, m talk (.error cause) → ends talk (.error (fault cause)))
    (hf : ∀ talk a, m talk (.ok a) → (f a).run.AsksSince due ends talk) :
    (ofExcept fault job >>= f).run.AsksSince due ends talk := by
  show ((job.bind _).bind _).AsksSince due ends talk
  rw [Job.bind_assoc, Job.asksSince_bind]
  refine h.mono fun talk answer hanswer => ?_
  cases answer with
  | error cause => exact hfault talk cause hanswer
  | ok a => exact hf talk a hanswer

theorem asksSince_mapFault {work : Work β} {g : Fault → Fault}
    (h : work.run.AsksSince due ends talk)
    (hfault : ∀ talk fault, ends talk (.error fault) → ends talk (.error (g fault))) :
    (work.mapFault g).run.AsksSince due ends talk := by
  show (work.run.bind _).AsksSince due ends talk
  rw [Job.asksSince_bind]
  refine h.mono fun talk result hresult => ?_
  cases result with
  | error fault => exact hfault talk fault hresult
  | ok a => exact hresult

end Work

end SqlBackup
