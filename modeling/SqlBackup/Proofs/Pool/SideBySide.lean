import Mathlib
import SqlBackup.Proofs.Pool.Moments

/-!
# Plans side by side

Any number of plans are carried out on hosts that have their state in common. Between any two of its
requests a plan waits while others make theirs, and it finds the state as they have left it.
-/
namespace SqlBackup

variable {σ β α ι : Type}

/-- In a turn nothing is asked and the host stays as it is, or the host answers a request. -/
theorem Pool.Turn.exchange {ε : Type} {host : Host σ} {t t' : Turns σ ε β} {move : Move ε β}
    (h : Turn host t move t') : move.exchange? = none ∧ t'.host = t.host ∨
      ∃ request, move.exchange? = some ⟨request, (host.answer request t.host).1.reply⟩ ∧
        t'.host = (host.answer request t.host).2 := by
  cases h with
  | ask => exact .inr ⟨_, rfl, rfl⟩
  | _ => exact .inl ⟨rfl, rfl⟩

namespace Plan

/-- Where the run of a plan is. -/
inductive Stage (σ β α : Type) where
  /-- This is left of the making of the plan. -/
  | planning (rest : Job (Except Fault (Plan β α)))
  | running (conclude : List (Pool.Outcome Fault β) → Work α) (turns : Pool.Turns σ Fault β)
  | concluding (rest : Job (Except Fault α))

/-- What the run of a plan has come to. -/
def Stage.result? : Stage σ β α → Option (Except Fault α)
  | concluding (.done result) => some result
  | planning (.done (.error fault)) => some (.error fault)
  | _ => none

/-- The least that the run of a plan does without the others: it makes a single request, or it goes on
without one. -/
inductive Step (host : Host σ) : Stage σ β α → σ → Option Asked → Stage σ β α → σ → Prop
  | plan {request next s} :
      Step host (.planning (.ask request next)) s
        (some ⟨request, (host.answer request s).1.reply⟩)
        (.planning (.resume next (host.answer request s).1.reply)) (host.answer request s).2
  | begin {plan s} :
      Step host (.planning (.done (.ok plan))) s none
        (.running plan.conclude (.start plan.width (plan.jobs.map ExceptT.run) s)) s
  | turn {conclude turns move turns' s} (h : Pool.Turn host (turns.on s) move turns') :
      Step host (.running conclude turns) s move.exchange? (.running conclude turns') turns'.host
  | join {conclude turns s} (hover : turns.IsOver) :
      Step host (.running conclude turns) s none (.concluding (conclude turns.outcomes).run) s
  | conclude {request next s} :
      Step host (.concluding (.ask request next)) s
        (some ⟨request, (host.answer request s).1.reply⟩)
        (.concluding (.resume next (host.answer request s).1.reply)) (host.answer request s).2

/-- In a step nothing is asked and the host stays as it is, or the host answers a request. -/
theorem Step.exchange {host : Host σ} {stage stage' : Stage σ β α} {asked? : Option Asked} {s s' : σ}
    (h : Step host stage s asked? stage' s') : asked? = none ∧ s' = s ∨
      ∃ request, asked? = some ⟨request, (host.answer request s).1.reply⟩ ∧
        s' = (host.answer request s).2 := by
  cases h with
  | plan => exact .inr ⟨_, rfl, rfl⟩
  | begin => exact .inl ⟨rfl, rfl⟩
  | turn hturn => exact hturn.exchange
  | join => exact .inl ⟨rfl, rfl⟩
  | conclude => exact .inr ⟨_, rfl, rfl⟩

/-- What one of the runs has asked. -/
def talkOf [DecidableEq ι] (i : ι) (talk : List (ι × Asked)) : List Asked :=
  talk.filterMap fun entry => if entry.1 = i then some entry.2 else none

/-- The runs go on from these stages in some order, and have asked this. -/
inductive SideBySide [DecidableEq ι] (host : ι → Host σ) (stages : ι → Stage σ β α) (s : σ) :
    List (ι × Asked) → (ι → Stage σ β α) → σ → Prop
  | nothing : SideBySide host stages s [] stages s
  | step {talk now s₁ i asked? stage s₂} (h : SideBySide host stages s talk now s₁)
      (hstep : Step (host i) (now i) s₁ asked? stage s₂) :
      SideBySide host stages s (talk ++ (asked?.map (i, ·)).toList)
        (Function.update now i stage) s₂

section Lemmas

variable [DecidableEq ι] {host : ι → Host σ} {stages now : ι → Stage σ β α} {s s' : σ} {i j : ι}
  {talk later : List (ι × Asked)} {asked? : Option Asked}

@[simp] theorem talkOf_nil : talkOf i ([] : List (ι × Asked)) = [] := rfl

theorem talkOf_append : talkOf i (talk ++ later) = talkOf i talk ++ talkOf i later :=
  List.filterMap_append ..

@[simp] theorem talkOf_self : talkOf i (asked?.map (i, ·)).toList = asked?.toList := by
  cases asked? <;> simp [talkOf]

theorem talkOf_of_ne (h : j ≠ i) : talkOf i (asked?.map (j, ·)).toList = [] := by
  cases asked? <;> simp [talkOf, h]

theorem SideBySide.trans {end_ : ι → Stage σ β α} {s'' : σ}
    (h : SideBySide host stages s talk now s') (h' : SideBySide host now s' later end_ s'') :
    SideBySide host stages s (talk ++ later) end_ s'' := by
  induction h' with
  | nothing => rwa [List.append_nil]
  | step _ hstep ih =>
    rw [← List.append_assoc]
    exact .step ih hstep

/-! ### A plan that is carried out alone -/

theorem SideBySide.planning {rest rest' : Job (Except Fault (Plan β α))} {asked : List Asked}
    (h : rest.Advances (host i) s asked rest' s') :
    SideBySide host (Function.update stages i (.planning rest)) s (asked.map (i, ·))
      (Function.update stages i (.planning rest')) s' := by
  induction h with
  | nothing => exact .nothing
  | @ask asked request next t _ ih =>
    have hstep := ih.step (i := i) (by rw [Function.update_self]; exact .plan)
    rw [Function.update_idem] at hstep
    rw [List.map_append]
    exact hstep

theorem SideBySide.concluding {rest rest' : Job (Except Fault α)} {asked : List Asked}
    (h : rest.Advances (host i) s asked rest' s') :
    SideBySide host (Function.update stages i (.concluding rest)) s (asked.map (i, ·))
      (Function.update stages i (.concluding rest')) s' := by
  induction h with
  | nothing => exact .nothing
  | @ask asked request next t _ ih =>
    have hstep := ih.step (i := i) (by rw [Function.update_self]; exact .conclude)
    rw [Function.update_idem] at hstep
    rw [List.map_append]
    exact hstep

theorem SideBySide.running {conclude : List (Pool.Outcome Fault β) → Work α}
    {t t' : Pool.Turns σ Fault β} {moves : List (Pool.Move Fault β)}
    (h : Pool.History (host i) t moves t') :
    SideBySide host (Function.update stages i (.running conclude t)) t.host
      ((moves.filterMap Pool.Move.exchange?).map (i, ·))
      (Function.update stages i (.running conclude t')) t'.host := by
  induction h with
  | nothing => exact .nothing
  | @turn moves t' move t'' _ hturn ih =>
    have hstep := ih.step (i := i) (by rw [Function.update_self]; exact .turn hturn)
    rw [Function.update_idem] at hstep
    rw [List.filterMap_append, List.map_append]
    cases hmove : move.exchange? with
    | none => simpa [hmove] using hstep
    | some asked => simpa [hmove] using hstep

/-- A plan that is carried out while the others wait is one of the ways in which they all go on. -/
theorem CarriesOut.sideBySide {planning : Work (Plan β α)} {result : Except Fault α}
    (hnow : now i = .planning planning.run)
    (h : CarriesOut (host i) planning s (.ok result) s') :
    ∃ (asked : List Asked) (stage : Stage σ β α),
      SideBySide host now s (asked.map (i, ·)) (Function.update now i stage) s' ∧
      stage.result? = some result := by
  have hplan {rest' : Job (Except Fault (Plan β α))} {asked : List Asked} {t : σ}
      (hadvances : planning.run.Advances (host i) s asked rest' t) :
      SideBySide host now s (asked.map (i, ·)) (Function.update now i (.planning rest')) t := by
    have hside : SideBySide host (Function.update now i (.planning planning.run)) s _ _ t :=
      .planning hadvances
    rwa [← hnow, Function.update_eq_self] at hside
  obtain ⟨fault, rfl, hfailed, rfl⟩ | ⟨plan, outcomes, s₁, hdone, hruns, hconclude, rfl⟩ := h.of_ok
  · obtain ⟨asked, hasked⟩ := Job.exists_advances hfailed
    exact ⟨asked, _, hplan hasked, rfl⟩
  · obtain ⟨asked, hasked⟩ := Job.exists_advances hdone
    obtain ⟨t, ⟨moves, hmoves⟩, hover, rfl, rfl⟩ := hruns
    obtain ⟨later, hlater⟩ := Job.exists_advances hconclude
    have hbegin := (hplan hasked).step (i := i) (by rw [Function.update_self]; exact .begin)
    rw [Function.update_idem] at hbegin
    have hrunning := hbegin.trans (SideBySide.running hmoves)
    have hjoin := hrunning.step (i := i) (by rw [Function.update_self]; exact .join hover)
    rw [Function.update_idem] at hjoin
    have hend := hjoin.trans (SideBySide.concluding hlater)
    refine ⟨asked ++ moves.filterMap Pool.Move.exchange? ++ later, .concluding (.done result), ?_, rfl⟩
    simpa [List.map_append] using hend

end Lemmas

end Plan

end SqlBackup
