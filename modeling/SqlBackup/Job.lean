import SqlBackup.Calendar.Instant
import SqlBackup.Files.Call
import SqlBackup.Programs.Call
import SqlBackup.Progress.Event
import SqlBackup.Server.Session

/-!
# Jobs

A job is a tree of requests: it asks its surroundings for something and goes on as the reply
tells it. It holds no state and does nothing by itself. A host answers the requests from a state
of its own, so that a job can be run against a server or looked at without one.
-/
namespace SqlBackup

/-- What a job asks of its surroundings. -/
inductive Request where
  /-- A session of its own. -/
  | acquire
  | session (session : Session) (call : Session.Call)
  | file (call : Files.Call)
  | program (call : Programs.Call)
  /-- The time. -/
  | now
  /-- That an event be told to whoever listens. -/
  | tell (event : Progress.Event)
  /-- To be left alone for a while. -/
  | pause (length : Calendar.Duration)

/-- What a request is answered with. -/
abbrev Request.Reply : Request → Type
  | acquire => Except SessionFault Session
  | session _ call => Except SessionFault call.Reply
  | file call => call.Reply
  | program call => call.Reply
  | now => Calendar.Instant
  | tell _ => Unit
  | pause _ => Unit

/-- A computation that asks its surroundings. -/
inductive Job (α : Type) where
  | done (value : α)
  /-- Breaks down, with a text that says why. -/
  | panic (text : String)
  | ask (request : Request) (next : request.Reply → Job α)

namespace Job

variable {α β γ : Type}

/-- Goes on with a second job where the first is done. -/
def bind : Job α → (α → Job β) → Job β
  | done a, f => f a
  | panic text, _ => panic text
  | ask request next, f => ask request fun reply => (next reply).bind f

instance : Monad Job where
  pure := done
  bind := bind

@[simp] theorem pure_eq (a : α) : (pure a : Job α) = done a := rfl

@[simp] theorem bind_eq (j : Job α) (f : α → Job β) : j >>= f = j.bind f := rfl

@[simp] theorem done_bind (a : α) (f : α → Job β) : (done a).bind f = f a := rfl

@[simp] theorem panic_bind (text : String) (f : α → Job β) : (panic text).bind f = panic text := rfl

@[simp] theorem ask_bind (request : Request) (next : request.Reply → Job α) (f : α → Job β) :
    (ask request next).bind f = ask request fun reply => (next reply).bind f := rfl

theorem bind_done (j : Job α) : j.bind done = j := by
  induction j with
  | done a => rfl
  | panic text => rfl
  | ask request next ih => simp [ih]

theorem bind_assoc (j : Job α) (f : α → Job β) (g : β → Job γ) :
    (j.bind f).bind g = j.bind fun a => (f a).bind g := by
  induction j with
  | done a => rfl
  | panic text => rfl
  | ask request next ih => simp [ih]

instance : LawfulMonad Job :=
  LawfulMonad.mk' Job (fun j => bind_done j) (fun _ _ => rfl) bind_assoc

/-- A single request. -/
def request (r : Request) : Job r.Reply := ask r done

def tell (event : Progress.Event) : Job Unit := request (.tell event)

def file (call : Files.Call) : Job call.Reply := request (.file call)

def program (call : Programs.Call) : Job call.Reply := request (.program call)

/-- The same job with its events changed. -/
def mapEvents (f : Progress.Event → Progress.Event) : Job α → Job α
  | done a => done a
  | panic text => panic text
  | ask (.tell event) next => ask (.tell (f event)) fun reply => (next reply).mapEvents f
  | ask request next => ask request fun reply => (next reply).mapEvents f

end Job

/-- A job that can fail. -/
abbrev Work (α : Type) := ExceptT Fault Job α

namespace Work

variable {α : Type}

/-- A job whose failures become faults. -/
def ofExcept {ε : Type} (fault : ε → Fault) (job : Job (Except ε α)) : Work α :=
  ExceptT.mk (job.bind fun answer => .done (answer.mapError fault))

/-- A job that does not fail. -/
def ofJob (job : Job α) : Work α := ExceptT.lift job

/-- The result of a part that is no job at all. -/
def ofResult (result : Except Fault α) : Work α := ExceptT.mk (.done result)

def fail (fault : Fault) : Work α := ofResult (.error fault)

/-- The same work with its fault changed. -/
def mapFault (f : Fault → Fault) (work : Work α) : Work α :=
  ExceptT.mk (work.run.bind fun answer => .done (answer.mapError f))

/-- What became of a piece of work. -/
def outcome (work : Work α) : Work (Except Fault α) := ofJob work.run

/-- A session of its own. -/
def acquire : Work Session := ofExcept .session (.request .acquire)

def tell (event : Progress.Event) : Work Unit := ofJob (.tell event)

/-- A call on a file whose failure is blamed on a path. -/
def onPath (path : String) (job : Job (Except IoFault α)) : Work α := ofExcept (.io path) job

end Work

/-- A call of a session. -/
def Session.call (s : Session) (call : Session.Call) : Work call.Reply :=
  .ofExcept .session (.request (.session s call))

/-- Asks a session to answer within the limit. -/
def Session.checkAlive (s : Session) (limit : Calendar.Duration) : Work Unit := s.call (.ping limit)

/-- What a host answers a request with, and when. -/
structure Answer (α : Type) where
  /-- The reply, or the text of a breakdown. -/
  reply : Except String α
  /-- How long the answer takes. -/
  delay : Calendar.Duration := ⟨0⟩

/-- Surroundings with a state of their own. -/
structure Host (σ : Type) where
  answer : (request : Request) → σ → Answer request.Reply × σ

/-- How a job ended: with its value or the text of a breakdown, and after how long. -/
structure Job.Ended (α : Type) where
  result : Except String α
  lasted : Calendar.Duration
  deriving Inhabited

/-- Runs a job on a host. -/
def Job.run {σ α : Type} (host : Host σ) : Job α → σ → Job.Ended α × σ
  | done a, s => (⟨.ok a, ⟨0⟩⟩, s)
  | panic text, s => (⟨.error text, ⟨0⟩⟩, s)
  | ask request next, s =>
      let (answer, s) := host.answer request s
      match answer.reply with
      | .error text => (⟨.error text, answer.delay⟩, s)
      | .ok reply =>
          let (ended, s) := (next reply).run host s
          (⟨ended.result, ⟨answer.delay.nanos + ended.lasted.nanos⟩⟩, s)

end SqlBackup
