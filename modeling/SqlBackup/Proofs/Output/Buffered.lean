import Mathlib
import SqlBackup.Output.Buffered

/-!
# What a writer in front of a sink has taken

What the sink has accepted and what the buffer holds are together what the writer has taken, in
its order, however little the sink accepts and whenever it fails. A write that fails may have taken
bytes all the same: they are in the buffer or with the sink when the flush behind them fails. Where
that flush was merely interrupted, a write of all bytes takes them once more.
-/
namespace SqlBackup.Output

variable {σ ε α β : Type} {sink : Sink (StateM σ) ε} {received : σ → List UInt8} {w : Buffered}
  {s : σ}

/-- A part of a run gives an answer and leaves a sink of which this holds. -/
def Gives (part : StateM σ α) (s : σ) (wanted : α → σ → Prop) : Prop :=
  wanted (part.run s).run.1 (part.run s).run.2

theorem gives_bind {part : StateM σ α} {f : α → StateM σ β} {wanted : β → σ → Prop} :
    Gives (part >>= f) s wanted ↔ Gives part s fun a s => Gives (f a) s wanted := Iff.rfl

theorem gives_pure {a : α} {wanted : α → σ → Prop} : Gives (pure a) s wanted ↔ wanted a s := Iff.rfl

theorem Gives.mono {part : StateM σ α} {wanted wanted' : α → σ → Prop} (h : Gives part s wanted)
    (himp : ∀ a s, wanted a s → wanted' a s) : Gives part s wanted' := himp _ _ h

/-- The answer and the sink are those that the run has. -/
theorem Gives.of_run {part : StateM σ α} {wanted : α → σ → Prop} (h : Gives part s wanted) {a : α}
    {s' : σ} (hrun : part.run s = (a, s')) : wanted a s' := by
  have hgives : wanted (part.run s).1 (part.run s).2 := h
  rwa [hrun] at hgives

/-- `received` is what a sink has accepted. A write accepts the first so many of the bytes that it
is offered, perhaps none, and nothing where it fails. A flush accepts nothing. -/
structure Sink.Accepts (sink : Sink (StateM σ) ε) (received : σ → List UInt8) : Prop where
  write : ∀ bytes s, Gives (sink.write bytes) s fun answer s' =>
    match answer with
    | .ok n => n ≤ bytes.length ∧ received s' = received s ++ bytes.take n
    | .error _ => received s' = received s
  flush : ∀ s, Gives (sink.flush) s fun _ s' => received s' = received s

/-- No flush of the sink is interrupted. -/
def Sink.Steady (sink : Sink (StateM σ) ε) : Prop :=
  ∀ s, Gives sink.flush s fun answer _ =>
    ∀ cause, answer = .error cause → sink.interrupted cause = false

namespace Buffered

/-- What has come through a writer: what the sink has accepted and behind it what is held. -/
def through (received : σ → List UInt8) (w : Buffered) (s : σ) : List UInt8 :=
  received s ++ w.held

/-- A writer that can hold a byte and is not flushed before it has taken one. -/
structure Sized (w : Buffered) : Prop where
  capacity : 0 < w.capacity
  threshold : 0 < w.threshold

theorem sized_ofSizes (capacity threshold : Nat) : (ofSizes capacity threshold).Sized :=
  ⟨Nat.le_max_left .., Nat.le_max_left ..⟩

/-- A writer has taken the first `n` of the bytes: they have come through it, behind all that had,
and are counted. -/
structure Takes (received : σ → List UInt8) (bytes : List UInt8) (n : Nat) (w : Buffered) (s : σ)
    (w' : Buffered) (s' : σ) : Prop where
  le : n ≤ bytes.length
  through : w'.through received s' = w.through received s ++ bytes.take n
  written : w'.written = w.written + n
  capacity : w'.capacity = w.capacity
  threshold : w'.threshold = w.threshold
  pending : w'.pending ≤ w.pending + n

theorem Takes.sized {bytes : List UInt8} {n : Nat} {w' : Buffered} {s' : σ}
    (h : Takes received bytes n w s w' s') (hsized : w.Sized) : w'.Sized :=
  ⟨h.capacity ▸ hsized.capacity, h.threshold ▸ hsized.threshold⟩

/-- Moving bytes from the buffer to the sink takes none. -/
theorem takes_zero {bytes held : List UInt8} {pending : Nat} {s' : σ}
    (hthrough : through received { w with held, pending } s' = w.through received s)
    (hpending : pending ≤ w.pending) :
    Takes received bytes 0 w s { w with held, pending } s' where
  le := Nat.zero_le _
  through := by rw [hthrough, List.take_zero, List.append_nil]
  written := rfl
  capacity := rfl
  threshold := rfl
  pending := hpending

/-- What a call takes comes behind what had been taken as a whole. -/
theorem Takes.append {taken bytes : List UInt8} {n : Nat} {w₁ w₂ : Buffered} {s₁ s₂ : σ}
    (h : Takes received taken taken.length w s w₁ s₁) (h' : Takes received bytes n w₁ s₁ w₂ s₂) :
    Takes received (taken ++ bytes.take n) (taken ++ bytes.take n).length w s w₂ s₂ := by
  have hlength : (taken ++ bytes.take n).length = taken.length + n := by
    rw [List.length_append, List.length_take, Nat.min_eq_left h'.le]
  refine ⟨le_rfl, ?_, ?_, h'.capacity.trans h.capacity, h'.threshold.trans h.threshold, ?_⟩
  · rw [h'.through, h.through, List.take_length, List.take_length, List.append_assoc]
  · rw [h'.written, h.written, hlength, Nat.add_assoc]
  · have := h.pending
    have := h'.pending
    omega

section Parts

variable (h : sink.Accepts received)
include h

/-- Bytes that are pushed are with the sink or left. None is left where the push succeeds, and it
never fails because it was interrupted. -/
theorem gives_push (patience : Nat) (held : List UInt8) :
    Gives (push sink patience held) s fun p s' =>
      received s' ++ p.2 = received s ++ held ∧ (p.1 = .ok () → p.2 = []) ∧
        ∀ fault, p.1 = .error fault → sink.interrupts fault = false := by
  induction hsize : patience + held.length using Nat.strong_induction_on
    generalizing patience held s with
  | _ m ih =>
    rw [push.eq_def]
    split
    · next hempty => exact ⟨by rw [hempty]; rfl, fun _ => rfl, nofun⟩
    · next hne =>
      have hpos := List.length_pos_iff.mpr hne
      rw [gives_bind]
      refine (h.write held s).mono ?_
      rintro (cause | n) t ht
      · have hkept : received t ++ held = received s ++ held := congrArg (· ++ held) ht
        dsimp only
        split
        · cases patience with
          | zero => exact ⟨hkept, nofun, by rintro _ ⟨⟩; rfl⟩
          | succ patience =>
            refine (ih (patience + held.length) (by omega) _ _ rfl).mono ?_
            rintro p t' ⟨hpushed, hleft, hfault⟩
            exact ⟨hpushed.trans hkept, hleft, hfault⟩
        · next hother => exact ⟨hkept, nofun, by rintro _ ⟨⟩; exact Bool.eq_false_iff.mpr hother⟩
      · obtain ⟨-, ht⟩ := ht
        dsimp only
        split
        · next hnone =>
          rw [hnone, List.take_zero, List.append_nil] at ht
          exact ⟨congrArg (· ++ held) ht, nofun, by rintro _ ⟨⟩; rfl⟩
        · refine (ih (patience + (held.drop n).length) (by rw [List.length_drop]; omega) _ _
            rfl).mono ?_
          rintro p t' ⟨hkept, hleft⟩
          exact ⟨by rw [hkept, ht, List.append_assoc, List.take_append_drop], hleft⟩

theorem gives_drain (w : Buffered) : Gives (w.drain sink) s fun p s' =>
    ∃ held, p.2 = { w with held } ∧ p.2.through received s' = w.through received s ∧
      (p.1 = .ok () → held = []) ∧ ∀ fault, p.1 = .error fault → sink.interrupts fault = false := by
  rw [Buffered.drain, gives_bind]
  exact (gives_push h sink.patience w.held).mono fun p _ hp => ⟨p.2, rfl, hp⟩

/-- A flush moves bytes from the buffer to the sink. Where it succeeds none is left and none is
pending, and where it fails all that were pending still are. -/
theorem gives_flush (w : Buffered) : Gives (w.flush sink) s fun p s' =>
    ∃ held pending, p.2 = { w with held, pending } ∧
      p.2.through received s' = w.through received s ∧
      (p.1 = .ok () → held = [] ∧ pending = 0) ∧ (p.1 ≠ .ok () → pending = w.pending) := by
  rw [Buffered.flush, gives_bind]
  refine (gives_drain h w).mono ?_
  rintro ⟨fault | _, _⟩ t ⟨held, rfl, hkept, hleft, -⟩
  · exact ⟨held, w.pending, rfl, hkept, nofun, fun _ => rfl⟩
  · rw [gives_bind]
    refine (h.flush t).mono ?_
    rintro (cause | _) t' ht'
    · exact ⟨held, w.pending, rfl, by rw [← hkept]; exact congrArg (· ++ held) ht', nofun,
        fun _ => rfl⟩
    · exact ⟨held, 0, rfl, by rw [← hkept]; exact congrArg (· ++ held) ht',
        fun _ => ⟨hleft rfl, rfl⟩, fun hno => absurd rfl hno⟩

/-- What the buffer takes comes behind what has come through. Bytes go past it only where it
holds nothing. -/
theorem gives_accept (hcapacity : 0 < w.capacity) (bytes : List UInt8) :
    Gives (w.accept sink bytes) s fun p s' =>
      ∃ held, p.2 = { w with held } ∧
        match p.1 with
        | .ok n => n ≤ bytes.length ∧
            p.2.through received s' = w.through received s ++ bytes.take n
        | .error _ => p.2.through received s' = w.through received s := by
  unfold Buffered.accept
  dsimp only
  split
  · rw [gives_bind]
    refine (gives_drain h w).mono ?_
    rintro ⟨fault | _, _⟩ t ⟨held, rfl, hkept, hleft, -⟩
    · exact ⟨held, rfl, hkept⟩
    · obtain rfl := hleft rfl
      dsimp only
      split
      · exact ⟨bytes, rfl, le_rfl, by
          rw [← hkept, List.take_length]; simp [through]⟩
      · rw [gives_bind]
        refine (h.write bytes t).mono ?_
        rintro (cause | n) t' ht'
        · exact ⟨[], rfl, by rw [← hkept]; exact congrArg (· ++ []) ht'⟩
        · exact ⟨[], rfl, ht'.1, by rw [← hkept]; simp [through, ht'.2]⟩
  · next hroom =>
    rw [gives_bind, gives_pure]
    dsimp only
    split
    · exact ⟨w.held ++ bytes, rfl, le_rfl, by
        rw [List.take_length]; exact (List.append_assoc ..).symm⟩
    · next hlarge =>
      have hempty : w.held = [] := by
        simp only [Bool.or_eq_true, decide_eq_true_eq, not_or, not_lt] at hlarge hroom
        rw [← List.length_eq_zero_iff]
        omega
      rw [gives_bind]
      refine (h.write bytes s).mono ?_
      rintro (cause | n) t ht
      · exact ⟨w.held, rfl, congrArg (· ++ w.held) ht⟩
      · exact ⟨w.held, rfl, ht.1, by simp [through, hempty, ht.2]⟩

/-- A write takes the first so many of the bytes and counts them, also where it fails. Where it
succeeds it tells how many, and fewer than the threshold are pending. -/
theorem gives_write (hsized : w.Sized) (bytes : List UInt8) :
    Gives (w.write sink bytes) s fun p s' => ∃ n, Takes received bytes n w s p.2 s' ∧
      ∀ m, p.1 = .ok m → m = n ∧ p.2.pending < w.threshold := by
  rw [Buffered.write, gives_bind]
  refine (gives_accept h hsized.capacity bytes).mono ?_
  rintro ⟨fault | n, _⟩ t ⟨held, rfl, haccept⟩
  · exact ⟨0, takes_zero haccept le_rfl, nofun⟩
  · obtain ⟨hle, hkept⟩ := haccept
    dsimp only
    split
    · next hbelow => exact ⟨n, ⟨hle, hkept, rfl, rfl, rfl, le_rfl⟩, fun | _, rfl => ⟨rfl, hbelow⟩⟩
    · rw [gives_bind]
      refine (gives_flush h _).mono ?_
      rintro ⟨fault | _, _⟩ t' ⟨held', pending, rfl, hflush, hdone, hstill⟩
      · obtain rfl := hstill nofun
        exact ⟨n, ⟨hle, hflush.trans hkept, rfl, rfl, rfl, le_rfl⟩, nofun⟩
      · obtain ⟨rfl, rfl⟩ := hdone rfl
        exact ⟨n, ⟨hle, hflush.trans hkept, rfl, rfl, rfl, Nat.zero_le _⟩,
          fun | _, rfl => ⟨rfl, hsized.threshold⟩⟩

/-- Where a writer is closed with success all has come to the sink. -/
theorem gives_close (w : Buffered) : Gives (w.close sink) s fun p s' =>
    p.2.through received s' = w.through received s ∧
      (p.1 = .ok () → received s' = w.through received s) := by
  rw [close, gives_bind]
  refine (gives_drain h w).mono ?_
  rintro ⟨fault | _, _⟩ t ⟨held, rfl, hkept, hleft, -⟩
  · rw [gives_bind]
    refine (gives_drain h _).mono ?_
    rintro ⟨_, _⟩ t' ⟨held', rfl, hkept', -, -⟩
    exact ⟨hkept'.trans hkept, nofun⟩
  · obtain rfl := hleft rfl
    exact ⟨hkept, fun _ => by rw [← hkept]; exact (List.append_nil _).symm⟩

end Parts

/-! ### How a write fails -/

/-- How a write of bytes fails, of which the buffer has taken the first `n`. -/
inductive FailsBehind (sink : Sink (StateM σ) ε) (w : Buffered) (s : σ) (bytes : List UInt8)
    (fault : WriteFault ε) (w' : Buffered) (s' : σ) : Nat → Prop
  /-- The buffer does not take the bytes. -/
  | refused (accepted : (w.accept sink bytes).run s = ((.error fault, w'), s')) :
      FailsBehind sink w s bytes fault w' s' 0
  /-- The buffer takes bytes, with which the threshold is reached, and the flush fails. -/
  | unflushed {n : Nat} {v : Buffered} {t : σ}
      (accepted : (w.accept sink bytes).run s = ((.ok n, v), t))
      (reached : v.threshold ≤ v.pending + n)
      (flushed : (Buffered.flush sink
        { v with pending := v.pending + n, written := v.written + n }).run t =
          ((.error fault, w'), s')) :
      FailsBehind sink w s bytes fault w' s' n

theorem exists_failsBehind {bytes : List UInt8} {fault : WriteFault ε} {w' : Buffered} {s' : σ}
    (hrun : (w.write sink bytes).run s = ((.error fault, w'), s')) :
    ∃ n, FailsBehind sink w s bytes fault w' s' n := by
  rw [Buffered.write, StateT.run_bind] at hrun
  rcases haccept : (w.accept sink bytes).run s with ⟨⟨fault' | n, v⟩, t⟩ <;> rw [haccept] at hrun
  · cases hrun
    exact ⟨0, .refused haccept⟩
  · change StateT.run (if v.pending + n < v.threshold then _ else _) t = _ at hrun
    split at hrun
    · cases hrun
    · next hreached =>
      rw [StateT.run_bind] at hrun
      rcases hflush : (Buffered.flush sink
        { v with pending := v.pending + n, written := v.written + n }).run t with
        ⟨⟨fault' | _, u⟩, t'⟩ <;> rw [hflush] at hrun <;> cases hrun
      exact ⟨n, .unflushed haccept (by omega) hflush⟩

/-- Where no flush of the sink is interrupted, no flush of the writer is. -/
theorem gives_flush_of_steady (h : sink.Accepts received) (hsteady : sink.Steady) (w : Buffered) :
    Gives (w.flush sink) s fun p _ =>
      ∀ fault, p.1 = .error fault → sink.interrupts fault = false := by
  rw [Buffered.flush, gives_bind]
  refine (gives_drain h w).mono ?_
  rintro ⟨fault | _, _⟩ t ⟨held, rfl, -, -, hfault⟩
  · exact hfault
  · rw [gives_bind]
    refine (hsteady t).mono ?_
    rintro (cause | _) t' ht'
    · rintro _ ⟨⟩
      exact ht' cause rfl
    · exact nofun

/-- Where no flush is interrupted, a write that is has taken nothing. -/
theorem FailsBehind.eq_zero {bytes : List UInt8} {fault : WriteFault ε} {w' : Buffered} {s' : σ}
    {n : Nat} (hfails : FailsBehind sink w s bytes fault w' s' n) (h : sink.Accepts received)
    (hsteady : sink.Steady) (hinterrupted : sink.interrupts fault) : n = 0 := by
  cases hfails with
  | refused => rfl
  | unflushed accepted reached flushed =>
    have hnot := (gives_flush_of_steady h hsteady _).of_run flushed fault rfl
    rw [hinterrupted] at hnot
    cases hnot

/-- A write that fails takes what the buffer has taken. -/
theorem FailsBehind.takes {bytes : List UInt8} {fault : WriteFault ε} {w' : Buffered} {s' : σ}
    {n : Nat} (hfails : FailsBehind sink w s bytes fault w' s' n) (h : sink.Accepts received)
    (hcapacity : 0 < w.capacity) : Takes received bytes n w s w' s' := by
  have haccept := gives_accept h hcapacity bytes (s := s)
  cases hfails with
  | refused accepted =>
    obtain ⟨held, rfl, hkept⟩ := haccept.of_run accepted
    exact takes_zero hkept le_rfl
  | unflushed accepted reached flushed =>
    obtain ⟨held, rfl, hle, hkept⟩ := haccept.of_run accepted
    obtain ⟨held', pending, rfl, hflush, -, hstill⟩ := (gives_flush h _).of_run flushed
    obtain rfl := hstill nofun
    exact ⟨hle, hflush.trans hkept, rfl, rfl, rfl, le_rfl⟩

/-! ### Writes of all bytes -/

/-- How a writer fares that is offered bytes until it has taken all of them: what it takes on the
way, what it answers, and how it and its sink are left. -/
inductive Offered (sink : Sink (StateM σ) ε) : List UInt8 → Buffered → σ → List UInt8 →
    Except (WriteFault ε) Unit → Buffered → σ → Prop
  | all {w : Buffered} {s : σ} : Offered sink [] w s [] (.ok ()) w s
  /-- It takes the first bytes, and is offered the others. -/
  | goesOn {bytes taken : List UInt8} {n : Nat} {w w₁ w' : Buffered} {s s₁ s' : σ}
      {answer : Except (WriteFault ε) Unit}
      (run : (w.write sink bytes).run s = ((.ok n, w₁), s₁))
      (rest : Offered sink (bytes.drop n) w₁ s₁ taken answer w' s') :
      Offered sink bytes w s (bytes.take n ++ taken) answer w' s'
  /-- It takes the first bytes, is interrupted, and is offered the same bytes again. -/
  | again {bytes taken : List UInt8} {n : Nat} {w w₁ w' : Buffered} {s s₁ s' : σ}
      {answer : Except (WriteFault ε) Unit} {fault : WriteFault ε} (nonempty : bytes ≠ [])
      (fails : FailsBehind sink w s bytes fault w₁ s₁ n) (interrupted : sink.interrupts fault)
      (rest : Offered sink bytes w₁ s₁ taken answer w' s') :
      Offered sink bytes w s (bytes.take n ++ taken) answer w' s'
  /-- It takes the first bytes and fails. -/
  | fails {bytes : List UInt8} {n : Nat} {w w' : Buffered} {s s' : σ} {fault : WriteFault ε}
      (fails : FailsBehind sink w s bytes fault w' s' n)
      (other : sink.interrupts fault = false) :
      Offered sink bytes w s (bytes.take n) (.error fault) w' s'
  /-- It takes the first bytes, is interrupted, and is not offered them again for now. -/
  | unfinished {bytes : List UInt8} {n : Nat} {w w' : Buffered} {s s' : σ} {fault : WriteFault ε}
      (fails : FailsBehind sink w s bytes fault w' s' n) (interrupted : sink.interrupts fault) :
      Offered sink bytes w s (bytes.take n) (.error .unfinished) w' s'
  /-- It takes nothing. -/
  | refused {bytes : List UInt8} {w w' : Buffered} {s s' : σ}
      (run : (w.write sink bytes).run s = ((.ok 0, w'), s')) :
      Offered sink bytes w s [] (.error .refused) w' s'

/-- A run of offers is one of these. -/
theorem gives_offer (patience : Nat) (bytes : List UInt8) (w : Buffered) :
    Gives (w.offer sink patience bytes) s fun p s' =>
      ∃ taken, Offered sink bytes w s taken p.1 p.2 s' := by
  induction hsize : patience + bytes.length using Nat.strong_induction_on
    generalizing patience bytes w s with
  | _ m ih =>
    rw [offer]
    split
    · next hempty =>
      subst hempty
      exact ⟨[], .all⟩
    · next hne =>
      have hpos := List.length_pos_iff.mpr hne
      rw [gives_bind]
      have hwrite : Gives (w.write sink bytes) s fun p t => (w.write sink bytes).run s = (p, t) := rfl
      refine hwrite.mono ?_
      rintro ⟨fault | n, w₁⟩ t hrun
      · obtain ⟨n, hfails⟩ := exists_failsBehind hrun
        dsimp only
        split
        · next hinterrupted =>
          cases patience with
          | zero => exact ⟨_, .unfinished hfails hinterrupted⟩
          | succ patience =>
            refine (ih (patience + bytes.length) (by omega) _ _ _ rfl).mono ?_
            rintro p t' ⟨taken, hrest⟩
            exact ⟨_, .again hne hfails hinterrupted hrest⟩
        · next hother => exact ⟨_, .fails hfails (Bool.eq_false_iff.mpr hother)⟩
      · dsimp only
        split
        · next hnone =>
          subst hnone
          exact ⟨_, .refused hrun⟩
        · refine (ih (patience + (bytes.drop n).length) (by rw [List.length_drop]; omega) _ _ _
            rfl).mono ?_
          rintro p t' ⟨taken, hrest⟩
          exact ⟨_, .goesOn hrun hrest⟩

section Offered

variable {bytes taken : List UInt8} {answer : Except (WriteFault ε) Unit} {w' : Buffered} {s' : σ}

/-- The bytes of a call as a whole. -/
theorem Takes.whole {n : Nat} (h : Takes received bytes n w s w' s') :
    Takes received (bytes.take n) (bytes.take n).length w s w' s' := by
  have hnone : Takes received ([] : List UInt8) ([] : List UInt8).length w s w s :=
    takes_zero rfl le_rfl
  exact hnone.append h

/-- What a writer takes has come through it and is counted. -/
theorem Offered.takes (hoffered : Offered sink bytes w s taken answer w' s')
    (h : sink.Accepts received) (hsized : w.Sized) :
    Takes received taken taken.length w s w' s' := by
  induction hoffered with
  | all => exact takes_zero rfl le_rfl
  | goesOn run rest ih =>
    obtain ⟨_, htakes, hanswer⟩ := (gives_write h hsized _).of_run run
    obtain ⟨rfl, -⟩ := hanswer _ rfl
    simpa using htakes.whole.append (ih (htakes.sized hsized))
  | again nonempty fails interrupted rest ih =>
    have htakes := fails.takes h hsized.capacity
    simpa using htakes.whole.append (ih (htakes.sized hsized))
  | fails fails => exact (fails.takes h hsized.capacity).whole
  | unfinished fails => exact (fails.takes h hsized.capacity).whole
  | refused run =>
    obtain ⟨_, htakes, hanswer⟩ := (gives_write h hsized _).of_run run
    obtain ⟨rfl, -⟩ := hanswer _ rfl
    exact htakes.whole

/-- A writer that has succeeded in the end has taken all bytes, and fewer than the threshold are
pending. Without bytes it was no write and leaves what is pending as it was. -/
theorem Offered.complete (hoffered : Offered sink bytes w s taken (.ok ()) w' s')
    (h : sink.Accepts received) (hsized : w.Sized) :
    bytes.Sublist taken ∧
      (bytes ≠ [] ∨ w.pending < w.threshold → w'.pending < w'.threshold) := by
  generalize hok : (Except.ok () : Except (WriteFault ε) Unit) = answer at hoffered
  induction hoffered with
  | all => exact ⟨List.Sublist.refl _, fun hbelow => hbelow.resolve_left (not_not_intro rfl)⟩
  | @goesOn bytes taken n _ _ _ _ _ _ _ run rest ih =>
    obtain ⟨_, htakes, hanswer⟩ := (gives_write h hsized _).of_run run
    obtain ⟨rfl, hbelow⟩ := hanswer _ rfl
    obtain ⟨hall, hpending⟩ := ih (htakes.sized hsized) hok
    refine ⟨?_, fun _ => hpending (.inr (hbelow.trans_eq htakes.threshold.symm))⟩
    conv_lhs => rw [← List.take_append_drop n bytes]
    exact hall.append_left _
  | again nonempty fails interrupted rest ih =>
    obtain ⟨hall, hpending⟩ := ih ((fails.takes h hsized.capacity).sized hsized) hok
    exact ⟨hall.trans (List.sublist_append_right _ _), fun _ => hpending (.inl nonempty)⟩
  | fails => cases hok
  | unfinished => cases hok
  | refused => cases hok

/-- Where no flush of the sink is interrupted, a writer takes the first of the bytes, and all of
them where it succeeds. -/
theorem Offered.once (hoffered : Offered sink bytes w s taken answer w' s')
    (h : sink.Accepts received) (hsteady : sink.Steady) :
    taken <+: bytes ∧ (answer = .ok () → taken = bytes) := by
  induction hoffered with
  | all => exact ⟨List.prefix_rfl, fun _ => rfl⟩
  | @goesOn bytes taken n _ _ _ _ _ _ _ run rest ih =>
    obtain ⟨hfirst, hall⟩ := ih
    refine ⟨?_, fun hok => by rw [hall hok, List.take_append_drop]⟩
    have hmore := (List.prefix_append_right_inj (bytes.take n)).mpr hfirst
    rwa [List.take_append_drop] at hmore
  | again nonempty fails interrupted rest ih =>
    rw [fails.eq_zero h hsteady interrupted, List.take_zero, List.nil_append]
    exact ih
  | fails => exact ⟨List.take_prefix _ _, nofun⟩
  | unfinished => exact ⟨List.take_prefix _ _, nofun⟩
  | refused => exact ⟨List.nil_prefix, nofun⟩

end Offered

/-! ### Calls -/

/-- What a caller asks of a writer. -/
inductive Call where
  | write (bytes : List UInt8)
  | writeAll (bytes : List UInt8)
  | flush

/-- The bytes that are handed over. -/
def Call.bytes : Call → List UInt8
  | write bytes | writeAll bytes => bytes
  | flush => []

/-- Does what is asked, and tells how many bytes were taken. -/
def perform (sink : Sink (StateM σ) ε) (w : Buffered) :
    Call → StateM σ (Except (WriteFault ε) Nat × Buffered)
  | .write bytes => w.write sink bytes
  | .writeAll bytes => do
      let (answer, w) ← w.writeAll sink bytes
      pure (answer.map fun _ => bytes.length, w)
  | .flush => do
      let (answer, w) ← w.flush sink
      pure (answer.map fun _ => 0, w)

/-- What a writer takes that is asked this, what it answers, and how it and its sink are left. -/
inductive Took (sink : Sink (StateM σ) ε) (w : Buffered) (s : σ) :
    Call → List UInt8 → Except (WriteFault ε) Nat → Buffered → σ → Prop
  | wrote {bytes : List UInt8} {n : Nat} {w' : Buffered} {s' : σ}
      (run : (w.write sink bytes).run s = ((.ok n, w'), s')) :
      Took sink w s (.write bytes) (bytes.take n) (.ok n) w' s'
  | failed {bytes : List UInt8} {n : Nat} {fault : WriteFault ε} {w' : Buffered} {s' : σ}
      (fails : FailsBehind sink w s bytes fault w' s' n) :
      Took sink w s (.write bytes) (bytes.take n) (.error fault) w' s'
  | offered {bytes taken : List UInt8} {answer : Except (WriteFault ε) Unit} {w' : Buffered}
      {s' : σ} (offered : Offered sink bytes w s taken answer w' s') :
      Took sink w s (.writeAll bytes) taken (answer.map fun _ => bytes.length) w' s'
  | flushed {answer : Except (WriteFault ε) Unit} {w' : Buffered} {s' : σ}
      (run : (w.flush sink).run s = ((answer, w'), s')) :
      Took sink w s .flush [] (answer.map fun _ => 0) w' s'

/-- Calls one after the other, whatever they answer and whatever each of them takes, bring a writer
and its sink here. -/
inductive Course (sink : Sink (StateM σ) ε) (w₀ : Buffered) (s₀ : σ) :
    List UInt8 → Buffered → σ → Prop
  | start : Course sink w₀ s₀ [] w₀ s₀
  | call {taken part : List UInt8} {w w' : Buffered} {s s' : σ}
      {answer : Except (WriteFault ε) Nat} (before : Course sink w₀ s₀ taken w s) (call : Call)
      (run : (w.perform sink call).run s = ((answer, w'), s'))
      (took : Took sink w s call part answer w' s') :
      Course sink w₀ s₀ (taken ++ part) w' s'

/-- What holds of a writer and its sink when these bytes have been taken, and what holds when it is
called once more. -/
structure Accounts (sink : Sink (StateM σ) ε) (received : σ → List UInt8) (s₀ : σ)
    (threshold : Nat) (taken : List UInt8) (w : Buffered) (s : σ) : Prop where
  bytes : received s ++ w.held = received s₀ ++ taken
  count : w.written = taken.length
  pending : w.pending ≤ w.written
  /-- Of every call it can be told what it takes. -/
  goesOn : ∀ call answer w' s', (w.perform sink call).run s = ((answer, w'), s') →
    ∃ part, Took sink w s call part answer w' s'
  /-- A call that succeeds has lost nothing. -/
  complete : ∀ call part n w' s', Took sink w s call part (.ok n) w' s' →
    (call.bytes.take n).Sublist part
  /-- Where no flush of the sink is interrupted, it has repeated nothing. -/
  once : sink.Steady → ∀ call part answer w' s', Took sink w s call part answer w' s' →
    part <+: call.bytes ∧ ∀ n, answer = .ok n → part = call.bytes.take n
  write : ∀ bytes n w' s', (w.write sink bytes).run s = ((.ok n, w'), s') →
    n ≤ bytes.length ∧ w'.written = w.written + n ∧ w'.pending < max 1 threshold
  writeAll : ∀ bytes w' s', (w.writeAll sink bytes).run s = ((.ok (), w'), s') →
    w.written + bytes.length ≤ w'.written ∧
      (sink.Steady → w'.written = w.written + bytes.length) ∧
      (bytes ≠ [] → w'.pending < max 1 threshold)
  flush : ∀ w' s', (w.flush sink).run s = ((.ok (), w'), s') →
    w'.pending = 0 ∧ w'.held = [] ∧ received s' = received s₀ ++ taken
  close : ∀ w' s', (w.close sink).run s = ((.ok (), w'), s') → received s' = received s₀ ++ taken

theorem exists_took {call : Call} {answer : Except (WriteFault ε) Nat} {w' : Buffered} {s' : σ}
    (hrun : (w.perform sink call).run s = ((answer, w'), s')) :
    ∃ part, Took sink w s call part answer w' s' := by
  cases call with
  | write bytes =>
    cases answer with
    | ok n => exact ⟨_, .wrote hrun⟩
    | error fault =>
      obtain ⟨n, hfails⟩ := exists_failsBehind hrun
      exact ⟨_, .failed hfails⟩
  | writeAll bytes =>
    rw [perform, StateT.run_bind] at hrun
    rcases hall : (w.writeAll sink bytes).run s with ⟨⟨answer', v⟩, t⟩
    rw [hall] at hrun
    cases hrun
    obtain ⟨taken, hoffered⟩ := (gives_offer sink.patience bytes w).of_run hall
    exact ⟨taken, .offered hoffered⟩
  | flush =>
    rw [perform, StateT.run_bind] at hrun
    rcases hflush : (w.flush sink).run s with ⟨⟨answer', v⟩, t⟩
    rw [hflush] at hrun
    cases hrun
    exact ⟨[], .flushed hflush⟩

section Calls

variable {call : Call} {part : List UInt8} {answer : Except (WriteFault ε) Nat} {w' : Buffered}
  {s' : σ} (h : sink.Accepts received)
include h

theorem Took.takes (htook : Took sink w s call part answer w' s') (hsized : w.Sized) :
    Takes received part part.length w s w' s' := by
  cases htook with
  | wrote run =>
    obtain ⟨_, htakes, hanswer⟩ := (gives_write h hsized _).of_run run
    obtain ⟨rfl, -⟩ := hanswer _ rfl
    exact htakes.whole
  | failed fails => exact (fails.takes h hsized.capacity).whole
  | offered offered => exact offered.takes h hsized
  | @flushed answer _ _ run =>
    obtain ⟨held, pending, rfl, hkept, hdone, hstill⟩ := (gives_flush h w).of_run run
    refine takes_zero hkept ?_
    by_cases hok : answer = .ok ()
    · rw [(hdone hok).2]
      exact Nat.zero_le _
    · exact (hstill hok).le

/-- What a call that succeeds tells of is part of what it has taken. -/
theorem Took.complete {n : Nat} (htook : Took sink w s call part (.ok n) w' s')
    (hsized : w.Sized) : (call.bytes.take n).Sublist part := by
  generalize hok : (Except.ok n : Except (WriteFault ε) Nat) = answer at htook
  cases htook with
  | wrote run =>
    cases hok
    exact List.Sublist.refl _
  | failed => cases hok
  | @offered bytes _ answer _ _ offered =>
    cases answer with
    | error fault => cases hok
    | ok _ =>
      cases hok
      rw [Call.bytes, List.take_length]
      exact (offered.complete h hsized).1
  | flushed => exact (List.take_nil).symm ▸ List.nil_sublist _

theorem Took.once (htook : Took sink w s call part answer w' s') (hsteady : sink.Steady) :
    part <+: call.bytes ∧ ∀ n, answer = .ok n → part = call.bytes.take n := by
  cases htook with
  | wrote run => exact ⟨List.take_prefix _ _, by rintro _ ⟨⟩; rfl⟩
  | failed => exact ⟨List.take_prefix _ _, nofun⟩
  | @offered bytes _ answer _ _ offered =>
    obtain ⟨hfirst, hall⟩ := offered.once h hsteady
    refine ⟨hfirst, fun n hn => ?_⟩
    cases answer with
    | error fault => cases hn
    | ok _ =>
      cases hn
      rw [Call.bytes, List.take_length]
      exact hall rfl
  | flushed => exact ⟨List.prefix_rfl, fun n _ => List.take_nil.symm⟩

/-- What each call preserves holds all the way. -/
theorem Course.kept {w₀ : Buffered} {s₀ : σ} {taken : List UInt8} (hsized : w₀.Sized)
    (hcourse : Course sink w₀ s₀ taken w s) :
    Takes received taken taken.length w₀ s₀ w s := by
  induction hcourse with
  | start => exact takes_zero rfl le_rfl
  | call before call run took ih => simpa using ih.append (took.takes h (ih.sized hsized))

/-- What calls have taken has come through, in its order, and is counted. Nothing is lost, and a
write of all bytes repeats some only where a flush is interrupted behind them. -/
theorem accounts_of_course {capacity threshold : Nat} {s₀ : σ} {taken : List UInt8}
    (hcourse : Course sink (ofSizes capacity threshold) s₀ taken w s) :
    Accounts sink received s₀ threshold taken w s := by
  have hkept := hcourse.kept h (sized_ofSizes capacity threshold)
  have hsized := hkept.sized (sized_ofSizes capacity threshold)
  have hthrough : received s ++ w.held = received s₀ ++ taken := by
    have hall := hkept.through
    rwa [List.take_length, through, through, ofSizes, List.append_nil] at hall
  constructor
  case bytes => exact hthrough
  case count => simpa [ofSizes] using hkept.written
  case pending =>
    have hpending := hkept.pending
    rw [hkept.written]
    simpa [ofSizes] using hpending
  case goesOn => exact fun call answer w' s' hrun => exists_took hrun
  case complete => exact fun call part n w' s' htook => htook.complete h hsized
  case once => exact fun hsteady call part answer w' s' htook => htook.once h hsteady
  case write =>
    intro bytes n w' s' hrun
    obtain ⟨_, htakes, hdone⟩ := (gives_write h hsized bytes).of_run hrun
    obtain ⟨rfl, hbelow⟩ := hdone n rfl
    exact ⟨htakes.le, htakes.written, hbelow.trans_eq hkept.threshold⟩
  case writeAll =>
    intro bytes w' s' hrun
    obtain ⟨part, hoffered⟩ := (gives_offer sink.patience bytes w).of_run hrun
    have htakes := hoffered.takes h hsized
    obtain ⟨hall, hbelow⟩ := hoffered.complete h hsized
    rw [htakes.written]
    refine ⟨Nat.add_le_add_left hall.length_le _, fun hsteady => ?_, fun hne => ?_⟩
    · rw [(hoffered.once h hsteady).2 rfl]
    · exact (hbelow (.inl hne)).trans_eq (htakes.threshold.trans hkept.threshold)
  case flush =>
    intro w' s' hrun
    obtain ⟨held, pending, rfl, hflush, hdone, -⟩ := (gives_flush h w).of_run hrun
    obtain ⟨rfl, rfl⟩ := hdone rfl
    refine ⟨rfl, rfl, ?_⟩
    rw [← hthrough]
    exact (List.append_nil _).symm.trans hflush
  case close =>
    intro w' s' hrun
    obtain ⟨-, hdone⟩ := (gives_close h w).of_run hrun
    exact (hdone rfl).trans hthrough

end Calls

/-- A sink that keeps what it accepts, so many bytes at once, and that fails at one of its
writes. -/
def faltering (most failing : Nat) : Sink (StateM (List UInt8 × Nat)) String where
  write bytes := fun (stored, writes) =>
    if writes + 1 = failing then (.error "sink failed", stored, writes + 1)
    else (.ok (min bytes.length most), stored ++ bytes.take most, writes + 1)
  flush := pure (.ok ())

theorem accepts_faltering (most failing : Nat) : (faltering most failing).Accepts Prod.fst where
  write bytes s := by
    obtain ⟨stored, writes⟩ := s
    by_cases hfails : writes + 1 = failing
    · have hrun : (faltering most failing).write bytes (stored, writes) =
        (.error "sink failed", stored, writes + 1) := if_pos hfails
      simp only [Gives, StateT.run, hrun]
      rfl
    · have hrun : (faltering most failing).write bytes (stored, writes) =
        (.ok (min bytes.length most), stored ++ bytes.take most, writes + 1) := if_neg hfails
      simp only [Gives, StateT.run, hrun]
      exact ⟨Nat.min_le_left .., by rw [Nat.min_comm, ← List.take_eq_take_min]; rfl⟩
  flush _ := rfl

theorem accounts_of_faltering :
    Course (faltering 2 3) (ofSizes 4 6) ([], 0) [1, 2, 3, 4, 5, 6]
        ⟨4, 6, [4, 5, 6], 6, 6⟩ ([1, 2, 3], 3) ∧
      Accounts (faltering 2 3) Prod.fst ([], 0) 6 [1, 2, 3, 4, 5, 6]
        ⟨4, 6, [4, 5, 6], 6, 6⟩ ([1, 2, 3], 3) := by
  have hfirst : ((ofSizes 4 6).perform (faltering 2 3) (.write [1, 2, 3])).run ([], 0) =
    ((.ok 3, ⟨4, 6, [1, 2, 3], 3, 3⟩), ([], 0)) := by rfl
  have hsecond : (perform (faltering 2 3) ⟨4, 6, [1, 2, 3], 3, 3⟩ (.write [4, 5, 6])).run ([], 0) =
    ((.error (.sink "sink failed"), ⟨4, 6, [4, 5, 6], 6, 6⟩), ([1, 2, 3], 3)) := by
    cbv
  have hfails : FailsBehind (faltering 2 3) ⟨4, 6, [1, 2, 3], 3, 3⟩ ([], 0) [4, 5, 6]
      (.sink "sink failed") ⟨4, 6, [4, 5, 6], 6, 6⟩ ([1, 2, 3], 3) 3 :=
    .unflushed (v := ⟨4, 6, [4, 5, 6], 3, 3⟩) (t := ([1, 2, 3], 2)) (by cbv) (by decide) (by cbv)
  have hcourse : Course (faltering 2 3) (ofSizes 4 6) ([], 0) [1, 2, 3, 4, 5, 6]
        ⟨4, 6, [4, 5, 6], 6, 6⟩ ([1, 2, 3], 3) :=
    (Course.start.call (.write [1, 2, 3]) hfirst (.wrote hfirst)).call (.write [4, 5, 6]) hsecond
      (.failed hfails)
  exact ⟨hcourse, accounts_of_course (accepts_faltering 2 3) hcourse⟩

/-- A sink that keeps all that it is offered, and whose first flushes are interrupted. -/
def restless (interruptions : Nat) : Sink (StateM (List UInt8 × Nat)) String where
  write bytes := fun (stored, flushes) => (.ok bytes.length, stored ++ bytes, flushes)
  flush := fun (stored, flushes) =>
    (if flushes < interruptions then .error "interrupted" else .ok (), stored, flushes + 1)
  interrupted cause := cause == "interrupted"
  patience := interruptions

theorem accepts_restless (interruptions : Nat) : (restless interruptions).Accepts Prod.fst where
  write bytes s := ⟨le_rfl, by rw [List.take_length]; rfl⟩
  flush _ := rfl

/-- The flush behind ten bytes is interrupted once. They are all written with success, and the sink
gets them twice. -/
theorem repeated_of_restless :
    (restless 1).Accepts Prod.fst ∧
    ((ofSizes 1024 10).writeAll (restless 1) [0, 1, 2, 3, 4, 5, 6, 7, 8, 9]).run ([], 0) =
      ((.ok (), ⟨1024, 10, [], 0, 20⟩),
        ([0, 1, 2, 3, 4, 5, 6, 7, 8, 9, 0, 1, 2, 3, 4, 5, 6, 7, 8, 9], 2)) :=
  ⟨accepts_restless 1, by cbv⟩

/-! ### Writes that fail -/

/-- A write that fails has taken nothing unless it is the flush at the threshold that fails. There
the bytes have come through and are counted all the same. -/
theorem takes_of_write_error (h : sink.Accepts received) (hcapacity : 0 < w.capacity)
    {bytes : List UInt8} {fault : WriteFault ε} {w' : Buffered} {s' : σ}
    (hrun : (w.write sink bytes).run s = ((.error fault, w'), s')) :
    (∃ n, FailsBehind sink w s bytes fault w' s' n ∧ Takes received bytes n w s w' s') ∧
      (w.pending + bytes.length < w.threshold → Takes received bytes 0 w s w' s') := by
  obtain ⟨n, hfails⟩ := exists_failsBehind hrun
  have htakes := hfails.takes h hcapacity
  refine ⟨⟨n, hfails, htakes⟩, fun hbelow => ?_⟩
  cases hfails with
  | refused => exact htakes
  | unflushed accepted reached =>
    obtain ⟨held, rfl, hle, -⟩ := (gives_accept h hcapacity bytes).of_run accepted
    exact absurd reached (by dsimp only; omega)

/-- The ten bytes of a write that failed are counted, and the sink gets them when it is closed. -/
theorem delivered_behind_error :
    ((ofSizes 1024 10).write (faltering 1024 1) [0, 1, 2, 3, 4, 5, 6, 7, 8, 9]).run ([], 0) =
        ((.error (.sink "sink failed"), ⟨1024, 10, [0, 1, 2, 3, 4, 5, 6, 7, 8, 9], 10, 10⟩),
          ([], 1)) ∧
      (close (faltering 1024 1) ⟨1024, 10, [0, 1, 2, 3, 4, 5, 6, 7, 8, 9], 10, 10⟩).run ([], 1) =
        ((.ok (), ⟨1024, 10, [], 10, 10⟩), ([0, 1, 2, 3, 4, 5, 6, 7, 8, 9], 2)) :=
  ⟨by cbv, by cbv⟩

theorem takes_of_faltering :
    ((ofSizes 1024 10).write (faltering 1024 1) [0, 1, 2, 3, 4, 5, 6, 7, 8, 9]).run ([], 0) =
        ((.error (.sink "sink failed"), ⟨1024, 10, [0, 1, 2, 3, 4, 5, 6, 7, 8, 9], 10, 10⟩),
          ([], 1)) ∧
      ∃ n, FailsBehind (faltering 1024 1) (ofSizes 1024 10) ([], 0)
          [0, 1, 2, 3, 4, 5, 6, 7, 8, 9] (.sink "sink failed")
          ⟨1024, 10, [0, 1, 2, 3, 4, 5, 6, 7, 8, 9], 10, 10⟩ ([], 1) n ∧
        Takes Prod.fst [0, 1, 2, 3, 4, 5, 6, 7, 8, 9] n (ofSizes 1024 10) ([], 0)
          ⟨1024, 10, [0, 1, 2, 3, 4, 5, 6, 7, 8, 9], 10, 10⟩ ([], 1) := by
  have hrun : ((ofSizes 1024 10).write (faltering 1024 1) [0, 1, 2, 3, 4, 5, 6, 7, 8, 9]).run
        ([], 0) =
      ((.error (.sink "sink failed"), ⟨1024, 10, [0, 1, 2, 3, 4, 5, 6, 7, 8, 9], 10, 10⟩),
        ([], 1)) := by cbv
  exact ⟨hrun, (takes_of_write_error (accepts_faltering 1024 1) (by decide) hrun).1⟩

end Buffered

end SqlBackup.Output
