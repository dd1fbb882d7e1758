import Mathlib
import SqlBackup.Proofs.Job.Telling
import SqlBackup.Proofs.Pool.Moments

/-!
# Jobs with forwarders

A job does not tell by itself how far it is. What it says of that waits in a queue of the job's own,
and a forwarder that runs beside the job passes it on, an event at a time, whenever it has its turn. A
job waits for its forwarder before it tells anything else and before it comes to its end, unless it
breaks down. Whatever the order of the turns is, what is heard of a job is what it has told, but for
what is still in the queue.
-/
namespace SqlBackup

open Progress (Event)

variable {σ ε α : Type}

/-- A host that is told nothing of how far a restore is. -/
def Host.deaf (host : Host σ) : Host σ where
  answer
    | .tell (.percent _ _ _), s => (⟨.ok (), ⟨0⟩⟩, s)
    | request, s => host.answer request s

/-- Whatever is told to a host is answered. -/
def Host.Hears (host : Host σ) : Prop :=
  ∀ event s, (host.answer (.tell event) s).1.reply = .ok ()

theorem Host.answer_deaf (host : Host σ) {request : Request} (s : σ)
    (h : ∀ event, request = .tell event → event.isPercent = false) :
    host.deaf.answer request s = host.answer request s := by
  cases request with
  | tell event =>
    cases event with
    | percent => exact absurd (h _ rfl) (by simp [Event.isPercent])
    | _ => rfl
  | _ => rfl

theorem Host.answer_deaf_percent (host : Host σ) {event : Event} (s : σ)
    (h : event.isPercent = true) : host.deaf.answer (.tell event) s = (⟨.ok (), ⟨0⟩⟩, s) := by
  cases event with
  | percent => rfl
  | _ => cases h

namespace Pool

/-- What is told in a turn, and the job that tells it. -/
def Move.told? : Move ε α → Option (Nat × Event)
  | ask i asked => asked.event?.map (i, ·)
  | _ => none

/-- The job whose forwarder has to be through before this turn. -/
def Move.awaits? : Move ε α → Option Nat
  | ask i ⟨.tell _, _⟩ => some i
  | finish _ (.panicked _) => none
  | finish i _ => some i
  | _ => none

/-- What has been heard of a job. -/
def heardOf (i : Nat) (heard : List (Nat × Event)) : List Event :=
  heard.filterMap fun entry => if entry.1 = i then some entry.2 else none

theorem heardOf_append (i : Nat) (heard later : List (Nat × Event)) :
    heardOf i (heard ++ later) = heardOf i heard ++ heardOf i later := List.filterMap_append ..

@[simp] theorem heardOf_self (i : Nat) (event : Event) : heardOf i [(i, event)] = [event] := by
  simp [heardOf]

theorem heardOf_of_ne {i j : Nat} (h : j ≠ i) (event : Event) : heardOf i [(j, event)] = [] := by
  simp [heardOf, h]

theorem toldIn_askedBy (i : Nat) (moves : List (Move ε α)) (move : Move ε α) :
    toldIn (askedBy i (moves ++ [move])) =
      toldIn (askedBy i moves) ++ heardOf i move.told?.toList := by
  rw [askedBy_append, toldIn_append]
  congr 1
  cases move with
  | ask j asked =>
    by_cases hij : j = i <;> cases hevent : asked.event? <;>
      simp [Move.asked?, Move.told?, heardOf, toldIn, hij, hevent]
  | _ => rfl

/-- Whoever tells anything waits for its forwarder, unless the forwarder is to pass it on. -/
theorem Move.awaits?_of_heard {i : Nat} {move : Move ε α} (h : heardOf i move.told?.toList ≠ []) :
    move.awaits? = some i := by
  cases move with
  | ask j asked =>
    obtain ⟨request, answer⟩ := asked
    cases request with
    | tell event =>
      by_contra hne
      refine h ?_
      cases answer with
      | ok reply => exact heardOf_of_ne (fun hij => hne (congrArg some hij)) event
      | error text => rfl
    | _ => exact absurd rfl h
  | _ => exact absurd rfl h

/-- A pool whose jobs have forwarders beside them. -/
structure Relay (σ ε α : Type) where
  turns : Turns σ ε α
  /-- What each job has said and its forwarder has not passed on. -/
  queues : Nat → List Event
  /-- What has been heard, and of which job. -/
  heard : List (Nat × Event)

namespace Relay

/-- Before the first turn. -/
def start (width : Nat) (jobs : List (Job (Except ε α))) (s : σ) : Relay σ ε α :=
  ⟨.start width jobs s, fun _ => [], []⟩

/-- The least that is done at a time. -/
inductive Step (host : Host σ) : Relay σ ε α → Option (Move ε α) → Relay σ ε α → Prop
  /-- A job says how far it is. -/
  | say {r i event t}
      (hturn : Turn host.deaf r.turns (.ask i ⟨.tell event, .ok ()⟩) t)
      (hpercent : event.isPercent = true) :
      Step host r (some (.ask i ⟨.tell event, .ok ()⟩))
        ⟨t, Function.update r.queues i (r.queues i ++ [event]), r.heard⟩
  /-- Anything else is done, once the forwarder is through that has to be. -/
  | turn {r move t} (hturn : Turn host.deaf r.turns move t)
      (hother : ∀ entry ∈ move.told?, entry.2.isPercent = false)
      (hawaits : ∀ i ∈ move.awaits?, r.queues i = []) :
      Step host r (some move) ⟨t, r.queues, r.heard ++ move.told?.toList⟩
  /-- A forwarder passes an event on. -/
  | pass {r i event rest} (hqueue : r.queues i = event :: rest) :
      Step host r none
        ⟨r.turns.on (host.answer (.tell event) r.turns.host).2, Function.update r.queues i rest,
          r.heard ++ [(i, event)]⟩

/-- What is done one after the other, with the turns of the jobs. -/
inductive History (host : Host σ) (r₀ : Relay σ ε α) : List (Move ε α) → Relay σ ε α → Prop
  | nothing : History host r₀ [] r₀
  | step {moves r move? r'} (h : History host r₀ moves r) (hstep : Step host r move? r') :
      History host r₀ (moves ++ move?.toList) r'

variable {host : Host σ} {jobs : List (Job (Except ε α))} {width : Nat} {s : σ}
  {moves : List (Move ε α)} {move? : Option (Move ε α)} {r r' : Relay σ ε α} {i : Nat}

/-- All that is known of a pool with forwarders behind any steps. -/
structure Sound (jobs : List (Job (Except ε α))) (width : Nat) (moves : List (Move ε α))
    (r : Relay σ ε α) : Prop where
  turns : r.turns.Sound jobs width moves
  heard : ∀ i, heardOf i r.heard ++ r.queues i = toldIn (askedBy i moves)
  queued : ∀ i, ∀ event ∈ r.queues i, event.isPercent = true
  awaited : ∀ i outcome, .finish i outcome ∈ moves → (∀ text, outcome ≠ .panicked text) →
    r.queues i = []

/-- A job that makes a request has not come to its end. -/
theorem not_finish {asked : Asked} {t : Turns σ ε α} (h : r.turns.Sound jobs width moves)
    (hturn : Turn host.deaf r.turns (.ask i asked) t) (outcome : Outcome ε α) :
    .finish i outcome ∉ moves := by
  intro hfinish
  obtain ⟨task, htask, -, houtcome⟩ := (h.accounts.finished i outcome).mp hfinish
  cases hturn with
  | ask hrun =>
    obtain rfl := Option.some.inj (hrun.symm.trans htask)
    cases houtcome

/-- What a job says waits behind what it has said. -/
theorem Sound.say {event : Event} {t : Turns σ ε α} (h : r.Sound jobs width moves)
    (hturn : Turn host.deaf r.turns (.ask i ⟨.tell event, .ok ()⟩) t)
    (hpercent : event.isPercent = true) :
    Sound jobs width (moves ++ [.ask i ⟨.tell event, .ok ()⟩])
      ⟨t, Function.update r.queues i (r.queues i ++ [event]), r.heard⟩ where
  turns := h.turns.turn hturn
  heard j := by
    rw [toldIn_askedBy, ← h.heard j, List.append_assoc]
    by_cases hij : j = i
    · subst hij
      simp [Move.told?, Asked.event?]
    · simp [Move.told?, Asked.event?, hij, heardOf_of_ne (Ne.symm hij)]
  queued j other hother := by
    dsimp only at hother
    by_cases hij : j = i
    · subst hij
      rw [Function.update_self, List.mem_append, List.mem_singleton] at hother
      rcases hother with hold | rfl
      · exact h.queued j other hold
      · exact hpercent
    · rw [Function.update_of_ne hij] at hother
      exact h.queued j other hother
  awaited j outcome hfinish hsound := by
    have hbefore : .finish j outcome ∈ moves := by simpa using hfinish
    have hij : j ≠ i := by
      rintro rfl
      exact not_finish h.turns hturn outcome hbefore
    dsimp only
    rw [Function.update_of_ne hij]
    exact h.awaited j outcome hbefore hsound

/-- What else is told is heard at once, as nothing waits before it. -/
theorem Sound.turn {move : Move ε α} {t : Turns σ ε α} (h : r.Sound jobs width moves)
    (hturn : Turn host.deaf r.turns move t) (hawaits : ∀ i ∈ move.awaits?, r.queues i = []) :
    Sound jobs width (moves ++ [move]) ⟨t, r.queues, r.heard ++ move.told?.toList⟩ where
  turns := h.turns.turn hturn
  heard j := by
    rw [toldIn_askedBy, ← h.heard j, heardOf_append]
    by_cases hquiet : heardOf j move.told?.toList = []
    · rw [hquiet, List.append_nil, List.append_nil]
    · have hempty : r.queues j = [] := hawaits j (Move.awaits?_of_heard hquiet)
      rw [hempty, List.append_nil, List.append_nil]
  queued := h.queued
  awaited j outcome hfinish hsound := by
    rw [List.mem_append, List.mem_singleton] at hfinish
    rcases hfinish with hbefore | rfl
    · exact h.awaited j outcome hbefore hsound
    · refine hawaits j ?_
      cases outcome with
      | panicked text => exact absurd rfl (hsound text)
      | _ => rfl

/-- A forwarder passes on what waits first. -/
theorem Sound.pass {event : Event} {rest : List Event} (s : σ) (h : r.Sound jobs width moves)
    (hqueue : r.queues i = event :: rest) :
    Sound jobs width moves
      ⟨r.turns.on s, Function.update r.queues i rest, r.heard ++ [(i, event)]⟩ where
  turns := h.turns.on s
  heard j := by
    rw [← h.heard j, heardOf_append, List.append_assoc]
    dsimp only
    by_cases hij : j = i
    · subst hij
      rw [heardOf_self, Function.update_self, hqueue, List.singleton_append]
    · rw [heardOf_of_ne (Ne.symm hij), Function.update_of_ne hij, List.nil_append]
  queued j other hother := by
    dsimp only at hother
    by_cases hij : j = i
    · subst hij
      rw [Function.update_self] at hother
      exact h.queued j other (hqueue ▸ List.mem_cons_of_mem _ hother)
    · rw [Function.update_of_ne hij] at hother
      exact h.queued j other hother
  awaited j outcome hfinish hsound := by
    have hempty := h.awaited j outcome hfinish hsound
    have hij : j ≠ i := by
      rintro rfl
      rw [hqueue] at hempty
      cases hempty
    dsimp only
    rw [Function.update_of_ne hij]
    exact hempty

theorem Sound.step (h : r.Sound jobs width moves) (hstep : Step host r move? r') :
    r'.Sound jobs width (moves ++ move?.toList) := by
  cases hstep with
  | say hturn hpercent => exact h.say hturn hpercent
  | turn hturn hother hawaits => exact h.turn hturn hawaits
  | pass hqueue =>
    rw [Option.toList_none, List.append_nil]
    exact h.pass _ hqueue

theorem History.sound (h : History host (.start width jobs s) moves r) :
    r.Sound jobs width moves := by
  induction h with
  | nothing => exact ⟨Turns.sound_start, fun _ => rfl, by simp [start], fun _ _ h => (nomatch h)⟩
  | step _ hstep ih => exact ih.step hstep

/-! ### What the host keeps -/

section Kept

variable {allowed : Request → Prop} {kept : σ → Prop}

theorem kept_deaf (hkept : ∀ request s, allowed request → kept s → kept (host.answer request s).2)
    {request : Request} (hallowed : allowed request) (hs : kept s) :
    kept (host.deaf.answer request s).2 := by
  by_cases hother : ∀ event, request = .tell event → event.isPercent = false
  · rw [host.answer_deaf s hother]
    exact hkept request s hallowed hs
  · simp only [not_forall, Bool.not_eq_false] at hother
    obtain ⟨event, rfl, hpercent⟩ := hother
    rw [host.answer_deaf_percent s hpercent]
    exact hs

/-- All that is known of what the jobs of a pool with forwarders are answered, if they make only
these requests and nothing else keeps a host from being so. -/
structure Keeps (host : Host σ) (allowed : Request → Prop) (kept : σ → Prop)
    (moves : List (Move ε α)) (r : Relay σ ε α) : Prop where
  holds : kept r.turns.host
  asks : r.turns.Asks allowed
  answers : ∀ i, ∀ asked ∈ askedBy i moves,
    ∃ s, kept s ∧ asked.answer = (host.deaf.answer asked.request s).1.reply

theorem Keeps.turn (hkept : ∀ request s, allowed request → kept s → kept (host.answer request s).2)
    (h : r.Keeps host allowed kept moves) {move : Move ε α} {t : Turns σ ε α}
    (hturn : Turn host.deaf r.turns move t) (queues : Nat → List Event)
    (heard : List (Nat × Event)) : Keeps host allowed kept (moves ++ [move]) ⟨t, queues, heard⟩ := by
  refine ⟨?_, h.asks.turn hturn, fun j asked hasked => ?_⟩
  · cases hturn with
    | ask hrun =>
      exact kept_deaf hkept
        (h.asks.exchange (Turn.ask hrun : Turn host.deaf r.turns _ _) rfl) h.holds
    | _ => exact h.holds
  · rw [askedBy_append, List.mem_append] at hasked
    rcases hasked with hbefore | hlast
    · exact h.answers j asked hbefore
    · cases hturn with
      | ask hrun =>
        simp only [Move.asked?, Option.mem_toList, Option.ite_none_right_eq_some,
          Option.some.injEq] at hlast
        obtain ⟨-, rfl⟩ := hlast
        exact ⟨_, h.holds, rfl⟩
      | _ => simp [Move.asked?] at hlast

/-- What every request of the jobs keeps, and the telling of events, holds behind any steps. -/
theorem History.keeps (hjobs : ∀ job ∈ jobs, job.Asks allowed fun _ => True)
    (htell : ∀ event, allowed (.tell event))
    (hkept : ∀ request s, allowed request → kept s → kept (host.answer request s).2)
    (hs : kept s) (h : History host (.start width jobs s) moves r) :
    r.Keeps host allowed kept moves := by
  induction h with
  | nothing => exact ⟨hs, Turns.asks_start hjobs, by simp [askedBy]⟩
  | step _ hstep ih =>
    cases hstep with
    | say hturn _ => exact ih.turn hkept hturn _ _
    | turn hturn _ _ => exact ih.turn hkept hturn _ _
    | pass hqueue =>
      rw [Option.toList_none, List.append_nil]
      exact ⟨hkept _ _ (htell _) ih.holds, ⟨ih.asks.waiting, ih.asks.running⟩, ih.answers⟩

end Kept

/-! ### Without delay -/

variable {t t' : Turns σ ε α}

theorem turn_deaf (hhears : host.Hears) {move : Move ε α} (hturn : Turn host t move t')
    (hother : ∀ entry ∈ move.told?, entry.2.isPercent = false) : Turn host.deaf t move t' := by
  cases hturn with
  | acquire hfree hidle hnext => exact .acquire hfree hidle hnext
  | start hadmitted hnext hflag => exact .start hadmitted hnext hflag
  | skip hadmitted hnext hflag => exact .skip hadmitted hnext hflag
  | @ask i request next hrun =>
    have hsame : host.deaf.answer request t.host = host.answer request t.host := by
      refine host.answer_deaf t.host ?_
      rintro event rfl
      refine hother (i, event) ?_
      rw [Move.told?, hhears]
      rfl
    rw [← hsame]
    exact .ask hrun
  | finish hrun hend => exact .finish hrun hend
  | raise hleave => exact .raise hleave
  | release hleave => exact .release hleave

/-- A forwarder passes an event on as soon as its job has said it. -/
theorem History.deliver {r₀ : Relay σ ε α} {heard : List (Nat × Event)} {event : Event}
    (h : History host r₀ moves ⟨t, fun _ => [], heard⟩)
    (hturn : Turn host.deaf t (.ask i ⟨.tell event, .ok ()⟩) t') (hpercent : event.isPercent = true) :
    History host r₀ (moves ++ [.ask i ⟨.tell event, .ok ()⟩])
      ⟨t'.on (host.answer (.tell event) t'.host).2, fun _ => [], heard ++ [(i, event)]⟩ := by
  have hqueue : Function.update (fun _ => []) i ([] ++ [event]) i = [event] :=
    Function.update_self ..
  have hpass := (h.step (.say hturn hpercent)).step (.pass hqueue)
  have hempty : Function.update (Function.update (fun _ => []) i ([] ++ [event])) i [] =
      fun _ : Nat => ([] : List Event) := by
    rw [Function.update_idem]
    exact Function.update_eq_self i _
  rw [hempty, Option.toList_none, List.append_nil] at hpass
  exact hpass

/-- A pool whose jobs tell everything by themselves does what one does whose forwarders are never
late. -/
theorem exists_history (hhears : host.Hears)
    (h : Pool.History host (.start width jobs s) moves t) :
    ∃ heard, History host (.start width jobs s) moves ⟨t, fun _ => [], heard⟩ := by
  induction h with
  | nothing => exact ⟨[], .nothing⟩
  | @turn moves t move t' _ hturn ih =>
    obtain ⟨heard, hhistory⟩ := ih
    by_cases hother : ∀ entry ∈ move.told?, entry.2.isPercent = false
    · exact ⟨_, hhistory.step (.turn (turn_deaf hhears hturn hother) hother fun _ _ => rfl)⟩
    simp only [not_forall, Bool.not_eq_false] at hother
    obtain ⟨⟨i, event⟩, htold, hpercent⟩ := hother
    cases hturn with
    | @ask j request next hrun =>
      cases request with
      | tell event' =>
        rw [Move.told?, hhears] at htold
        obtain ⟨rfl, rfl⟩ : j = i ∧ event' = event := by simpa [Asked.event?] using htold
        have hturn := (Turn.ask hrun : Turn host.deaf t _ _)
        rw [host.answer_deaf_percent t.host hpercent] at hturn
        rw [hhears]
        exact ⟨_, hhistory.deliver hturn hpercent⟩
      | _ => cases htold
    | _ => cases htold

end Relay

end Pool

end SqlBackup
