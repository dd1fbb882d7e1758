import Mathlib
import SqlBackup.Proofs.Job.Moments

/-!
# What jobs tell

What a job has told so far are the events of its requests, in their order. A request that the host
breaks down at tells nothing.
-/
namespace SqlBackup

open Progress (Event)

/-- An event that tells how far a load is. -/
def Progress.Event.isLoading : Event → Bool
  | .loading _ _ _ _ => true
  | _ => false

/-- An event that tells how far a restore is. -/
def Progress.Event.isPercent : Event → Bool
  | .percent _ _ _ => true
  | _ => false

theorem Progress.Event.isPercent_inPercent {event : Event} (h : event.isLoading = true) :
    event.inPercent.isPercent = true := by
  cases event with
  | loading => rfl
  | _ => cases h

/-- A request that tells nothing. -/
def Request.IsQuiet (request : Request) : Prop := ∀ event, request ≠ .tell event

/-- The event that was told in an exchange. -/
def Asked.event? : Asked → Option Event
  | ⟨.tell event, .ok _⟩ => some event
  | _ => none

/-- The events that have been told. -/
def toldIn (talk : List Asked) : List Event := talk.filterMap Asked.event?

variable {talk : List Asked} {asked : Asked} {form : List Event → Prop}

@[simp] theorem toldIn_nil : toldIn [] = [] := rfl

theorem toldIn_append (talk later : List Asked) : toldIn (talk ++ later) = toldIn talk ++ toldIn later :=
  List.filterMap_append ..

theorem toldIn_concat (talk : List Asked) (asked : Asked) :
    toldIn (talk ++ [asked]) = toldIn talk ++ asked.event?.toList := by
  rw [toldIn_append]
  cases h : asked.event? <;> simp [toldIn, h]

theorem Request.IsQuiet.event?_eq_none (h : asked.request.IsQuiet) : asked.event? = none := by
  obtain ⟨request, answer⟩ := asked
  cases request with
  | tell event => exact absurd rfl (h event)
  | _ => rfl

theorem toldIn_of_isQuiet (h : asked.request.IsQuiet) : toldIn (talk ++ [asked]) = toldIn talk := by
  rw [toldIn_concat, h.event?_eq_none, Option.toList_none, List.append_nil]

/-- With this request what has been told keeps its form. -/
def Tells (form : List Event → Prop) (talk : List Asked) (request : Request) : Prop :=
  ∀ event, request = .tell event → form (toldIn talk ++ [event])

theorem tells_of_isQuiet {request : Request} (h : request.IsQuiet) : Tells form talk request :=
  fun event heq => absurd heq (h event)

theorem Tells.concat (h : Tells form talk asked.request) (hform : form (toldIn talk)) :
    form (toldIn (talk ++ [asked])) := by
  by_cases hquiet : asked.request.IsQuiet
  · rwa [toldIn_of_isQuiet hquiet]
  · obtain ⟨request, answer⟩ := asked
    obtain ⟨event, rfl⟩ := not_forall_not.mp hquiet
    rw [toldIn_concat]
    cases answer with
    | ok reply => exact h event rfl
    | error text => exact (List.append_nil (toldIn talk)).symm ▸ hform

namespace Job

variable {α : Type} {job rest : Job α} {ends : List Asked → α → Prop}

/-- A job that tells nothing keeps what requests that tell nothing do. -/
theorem Asks.quietly {wanted : α → Prop} (h : job.Asks Request.IsQuiet wanted)
    (kept : List Asked → Prop)
    (hkept : ∀ talk asked, kept talk → asked.request.IsQuiet → kept (talk ++ [asked]))
    (htalk : kept talk) :
    job.AsksSince (Tells form) (fun talk a => kept talk ∧ wanted a) talk :=
  h.since kept (fun _ _ _ => tells_of_isQuiet) hkept htalk

theorem Asks.untold {wanted : α → Prop} {events : List Event}
    (h : job.Asks Request.IsQuiet wanted) (htold : toldIn talk = events) :
    job.AsksSince (Tells form) (fun talk a => toldIn talk = events ∧ wanted a) talk :=
  h.quietly (toldIn · = events) (fun _ _ htold hquiet => (toldIn_of_isQuiet hquiet).trans htold) htold

theorem AsksSince.formed (h : job.AsksSince (Tells form) ends talk) (htold : form (toldIn talk)) :
    job.AsksSince (Tells form) (fun talk a => form (toldIn talk) ∧ ends talk a) talk :=
  h.keep (fun talk => form (toldIn talk)) (fun _ _ hform htells => htells.concat hform) htold

/-- What has been told keeps its form wherever its requests lead a job. -/
theorem AsksSince.form_of_leads (h : job.AsksSince (Tells form) ends []) (hstart : form [])
    (hleads : job.Leads talk rest) :
    form (toldIn talk) ∧ rest.AsksSince (Tells form) ends talk :=
  h.leads (fun talk => form (toldIn talk)) (fun _ _ hform htells => htells.concat hform) hstart hleads

end Job

/-! ### Events that are changed -/

/-- The same request with its event changed. -/
def Request.mapEvent (f : Event → Event) : Request → Request
  | tell event => tell (f event)
  | request => request

/-- The same exchange with its event changed. -/
def Asked.mapEvent (f : Event → Event) : Asked → Asked
  | ⟨.tell event, answer⟩ => ⟨.tell (f event), answer⟩
  | asked => asked

theorem Asked.mapEvent_of_isQuiet {f : Event → Event} (h : asked.request.IsQuiet) :
    asked.mapEvent f = asked := by
  obtain ⟨request, answer⟩ := asked
  cases request with
  | tell event => exact absurd rfl (h event)
  | _ => rfl

theorem toldIn_map (f : Event → Event) (talk : List Asked) :
    toldIn (talk.map (Asked.mapEvent f)) = (toldIn talk).map f := by
  rw [toldIn, toldIn, List.filterMap_map, List.map_filterMap]
  congr 1
  funext asked
  obtain ⟨request, answer⟩ := asked
  cases request with
  | tell event => cases answer <;> rfl
  | _ => rfl

namespace Job

variable {α : Type} {job : Job α} {ends : List Asked → α → Prop} {f : Event → Event}

theorem Asks.mapEvents {allowed allowed' : Request → Prop} {wanted : α → Prop}
    (h : job.Asks allowed wanted)
    (hmap : ∀ request, allowed request → allowed' (request.mapEvent f)) :
    (job.mapEvents f).Asks allowed' wanted := by
  induction job with
  | done a => exact h
  | panic text => exact h
  | ask request next ih =>
    have hnext (reply : request.Reply) := ih reply (h.2 reply)
    cases request with
    | tell event => exact ⟨hmap _ h.1, hnext⟩
    | _ => exact ⟨hmap _ h.1, hnext⟩

/-- What is told with other events has the form that these give to it. -/
theorem AsksSince.mapEvents {form' : List Event → Prop} (before : List Asked)
    (hform : ∀ events, form events → form' (toldIn before ++ events.map f))
    (h : job.AsksSince (Tells form) ends talk) :
    (job.mapEvents f).AsksSince (Tells form')
      (fun later a => ∃ inner, later = before ++ inner.map (Asked.mapEvent f) ∧ ends inner a)
      (before ++ talk.map (Asked.mapEvent f)) := by
  have htells {talk : List Asked} {event : Event} (h : Tells form talk (.tell event)) :
      Tells form' (before ++ talk.map (Asked.mapEvent f)) (.tell (f event)) := by
    rintro _ ⟨⟩
    have hnext := hform _ (h event rfl)
    rwa [List.map_append, ← toldIn_map, ← List.append_assoc, ← toldIn_append] at hnext
  induction job generalizing talk with
  | done a => exact ⟨talk, rfl, h⟩
  | panic text => trivial
  | ask request next ih =>
    have hnext (reply : request.Reply) := ih reply (h.2 reply)
    simp only [List.map_append, ← List.append_assoc] at hnext
    cases request with
    | tell event => exact ⟨htells h.1, hnext⟩
    | _ => exact ⟨tells_of_isQuiet (by simp [Request.IsQuiet]), hnext⟩

end Job

end SqlBackup
