import Mathlib
import SqlBackup.Proofs.Text.Encoding
import SqlBackup.Scan.Remaining
import SqlBackup.Scan.State

/-!
# What one byte does to a scanner

A byte adds a byte to the text that is held, takes the last one back or leaves the text alone. Which
of these it does, and which mode it leads to, depends on the mode and on the text, not on the limit:
that decides only whether a text that has grown is refused.

A byte moves the position by one and leaves the delimiter and the start of the statement as they
are. It ends a statement only in code, as the last byte of the text and of the delimiter. Taking a
statement there leaves the state of a scanner that starts behind it.
-/
namespace SqlBackup.Scan

/-- What a byte does to the text that is held. -/
inductive Effect where
  | none
  | add (b : UInt8)
  | takeBack
  deriving DecidableEq

namespace Effect

/-- The state with its text changed so. -/
def on (s : State) : Effect → State
  | .none => s
  | .add b => { s with begun := true, pending := b :: s.pending, size := s.size + 1 }
  | .takeBack => s.unpush

/-- Whether a text of this size becomes longer than the limit so. -/
def exceeds (limit size : Nat) : Effect → Bool
  | .add _ => limit < size + 1
  | _ => false

theorem exceeds_of_room {limit size : Nat} (h : size + 1 ≤ limit) (effect : Effect) :
    effect.exceeds limit size = false := by
  cases effect with
  | none => rfl
  | add b => simpa [exceeds] using h
  | takeBack => rfl

end Effect

namespace State

/-- A byte of text is added, unless it is a blank in front of the text. -/
def addition (s : State) (b : UInt8) : Effect :=
  if !s.begun && Text.isAsciiBlank b then .none else .add b

/-- What a byte does to the text, and the mode that it leads to. -/
def effect (s : State) (b : UInt8) : Effect × Mode :=
  match s.mode with
  | .code =>
      if b == 0x27 || b == 0x22 || b == 0x60 then (s.addition b, .quoted b)
      else if b == 0x23 then (.none, .lineComment)
      else if b == 0x2D && s.pending.head? == some 0x2D then (.takeBack, .lineComment)
      else if b == 0x2A && s.pending.head? == some 0x2F then (.takeBack, .blockComment false)
      else (s.addition b, .code)
  | .quoted quote =>
      (s.addition b, if b == 0x5C then .escaped quote else if b == quote then .code else .quoted quote)
  | .escaped quote => (s.addition b, .quoted quote)
  | .lineComment => if b == 0x0A then (s.addition b, .code) else (.none, .lineComment)
  | .blockComment star =>
      if star && b == 0x2F then (s.addition 0x20, .code) else (.none, .blockComment (b == 0x2A))

/-- The state behind a byte that is not refused, but for the position. -/
def turned (s : State) (b : UInt8) : State := { (s.effect b).1.on s with mode := (s.effect b).2 }

/-- The mode in which a text is refused. Where a comment ends, the scanner is in code by then. -/
def refusalMode (s : State) : Mode :=
  match s.mode with
  | .lineComment => .code
  | .blockComment _ => .code
  | mode => mode

/-- Whether a byte of code makes the text end with the delimiter. -/
def completes (s : State) (b : UInt8) : Bool :=
  s.mode == .code && (s.turned b).mode == .code && (s.turned b).begun && (s.turned b).atDelimiter

/-- The state behind a byte that is not refused. -/
def moved (s : State) (b : UInt8) : State := { s.turned b with position := s.position + 1 }

variable {limit : Nat} {s : State} {b : UInt8}

theorem addition_of_kept (h : s.begun = true ∨ Text.isAsciiBlank b = false) :
    s.addition b = .add b := by
  rcases h with hbegun | hblank
  · simp [addition, hbegun]
  · simp [addition, hblank]

theorem push_eq (limit : Nat) (s : State) (b : UInt8) :
    s.push limit b =
      ((s.addition b).on s, if (s.addition b).exceeds limit s.size then .tooLarge else .more) := by
  unfold push addition
  split <;> simp [Effect.on, Effect.exceeds]

theorem mode_on (effect : Effect) (s : State) : (effect.on s).mode = s.mode := by
  cases effect <;> rfl

theorem on_mode (effect : Effect) (s : State) (mode : Mode) :
    effect.on { s with mode } = { effect.on s with mode } := by
  cases effect <;> rfl

theorem with_mode {mode : Mode} (h : s.mode = mode) : { s with mode } = s := by
  subst h
  rfl

theorem turned_of_effect {effect : Effect} {mode : Mode} (h : s.effect b = (effect, mode)) :
    s.turned b = { effect.on s with mode } := by
  rw [turned, h]

/-- What is to be shown of a byte: it has its effect, unless the text becomes too long by it. -/
def Performs (limit : Nat) (s : State) (b : UInt8) (result : State × Signal) : Prop :=
  result =
    if (s.effect b).1.exceeds limit s.size then ({ s.turned b with mode := s.refusalMode }, .tooLarge)
    else (s.turned b, if s.completes b then .boundary else .more)

theorem completes_of_ne (h : s.mode ≠ .code ∨ (s.turned b).mode ≠ .code) :
    s.completes b = false := by
  simp only [completes, Bool.and_assoc, Bool.and_eq_false_imp, beq_iff_eq]
  intro hcode hcode'
  simp_all

/-- A byte that adds nothing. -/
theorem performs_of_silent {effect : Effect} {mode : Mode} (heffect : s.effect b = (effect, mode))
    (hmode : mode ≠ .code) (hfits : effect.exceeds limit s.size = false) :
    Performs limit s b ({ effect.on s with mode }, .more) := by
  have hturned := turned_of_effect heffect
  have hcompletes : s.completes b = false := completes_of_ne (.inr (by rwa [hturned]))
  simp [Performs, heffect, hfits, hturned, hcompletes]

/-- A byte within a quoted stretch, or the first of one. -/
theorem performs_pushThen {mode : Mode} (heffect : s.effect b = (s.addition b, mode))
    (hmode : s.mode ≠ .code ∨ mode ≠ .code) (hrefusal : s.refusalMode = s.mode) :
    Performs limit s b (s.pushThen limit b mode) := by
  have hturned := turned_of_effect heffect
  have hcompletes : s.completes b = false := completes_of_ne (by rwa [hturned])
  have hstays : { (s.addition b).on s with mode := s.mode } = (s.addition b).on s :=
    with_mode (mode_on _ s)
  rw [Performs, pushThen, push_eq, heffect, hturned, hcompletes, hrefusal]
  cases hlarge : (s.addition b).exceeds limit s.size with
  | true => simp [hstays]
  | false => simp

/-- The byte that ends a comment. -/
theorem performs_push {c : UInt8} (heffect : s.effect b = (s.addition c, .code))
    (hmode : s.mode ≠ .code) (hrefusal : s.refusalMode = .code) :
    Performs limit s b (push limit { s with mode := .code } c) := by
  have hturned := turned_of_effect heffect
  have hcompletes : s.completes b = false := completes_of_ne (.inl hmode)
  have haddition : addition { s with mode := .code } c = s.addition c := rfl
  rw [Performs, push_eq, haddition, on_mode, heffect, hturned, hcompletes, hrefusal]
  cases hlarge : (s.addition c).exceeds limit s.size with
  | true => simp
  | false => simp

theorem performs_stepCode (hmode : s.mode = .code) : Performs limit s b (s.stepCode limit b) := by
  have heffect := effect.eq_def s b
  have hrefusal : s.refusalMode = s.mode := by simp [refusalMode, hmode]
  simp only [hmode] at heffect
  unfold stepCode
  split_ifs at heffect ⊢ with hquote hhash hdash hstar
  · exact performs_pushThen heffect (.inr (by simp)) hrefusal
  · exact performs_of_silent heffect (by simp) rfl
  · exact performs_of_silent heffect (by simp) rfl
  · exact performs_of_silent heffect (by simp) rfl
  · have hmode' : ((s.addition b).on s).mode = .code := by rw [mode_on, hmode]
    have hturned : s.turned b = (s.addition b).on s := by
      rw [turned_of_effect heffect]
      exact with_mode hmode'
    have hcompletes : s.completes b =
        (((s.addition b).on s).begun && ((s.addition b).on s).atDelimiter) := by
      simp [completes, hturned, hmode, hmode']
    rw [Performs, heffect, push_eq, hturned, hcompletes, hrefusal, hmode, with_mode hmode']
    cases hlarge : (s.addition b).exceeds limit s.size with
    | true => simp
    | false => simp

theorem performs_stepMode (limit : Nat) (s : State) (b : UInt8) :
    Performs limit s b (s.stepMode limit b) := by
  have heffect := effect.eq_def s b
  cases hmode : s.mode with
  | code =>
    simp only [stepMode, hmode]
    exact performs_stepCode hmode
  | quoted quote =>
    simp only [stepMode, hmode] at heffect ⊢
    exact performs_pushThen heffect (.inl (by simp [hmode])) (by simp [refusalMode, hmode])
  | escaped quote =>
    simp only [stepMode, hmode] at heffect ⊢
    exact performs_pushThen heffect (.inl (by simp [hmode])) (by simp [refusalMode, hmode])
  | lineComment =>
    simp only [stepMode, hmode] at heffect ⊢
    split_ifs at heffect ⊢ with hfeed
    · exact performs_push heffect (by simp [hmode]) (by simp [refusalMode, hmode])
    · have hsilent := @performs_of_silent limit _ _ _ _ heffect (by simp) rfl
      rwa [Effect.on, with_mode hmode] at hsilent
  | blockComment star =>
    simp only [stepMode, hmode] at heffect ⊢
    split_ifs at heffect ⊢ with hclose
    · exact performs_push heffect (by simp [hmode]) (by simp [refusalMode, hmode])
    · exact performs_of_silent heffect (by simp) rfl

theorem delimiter_moved (s : State) (b : UInt8) : (s.moved b).delimiter = s.delimiter := by
  have hon (effect : Effect) : (effect.on s).delimiter = s.delimiter := by cases effect <;> rfl
  exact hon (s.effect b).1

theorem start_moved (s : State) (b : UInt8) : (s.moved b).start = s.start := by
  have hon (effect : Effect) : (effect.on s).start = s.start := by cases effect <;> rfl
  exact hon (s.effect b).1

theorem turned_elsewhere (s : State) (b : UInt8) (position start : Nat) :
    turned { s with position, start } b = { s.turned b with position, start } := by
  have heffect : effect { s with position, start } b = s.effect b := rfl
  rw [turned, turned, heffect]
  cases (s.effect b).1 <;> rfl

theorem completes_elsewhere (s : State) (b : UInt8) (position start : Nat) :
    completes { s with position, start } b = s.completes b := by
  simp only [completes, turned_elsewhere]
  rfl

/-- A byte has its effect, unless the text becomes too long by it. -/
theorem step_eq (limit : Nat) (s : State) (b : UInt8) :
    s.step limit b =
      if (s.effect b).1.exceeds limit s.size then
        ({ s.moved b with mode := s.refusalMode }, .tooLarge)
      else (s.moved b, if s.completes b then .boundary else .more) := by
  have hstep := performs_stepMode limit { s with position := s.position + 1 } b
  have hstart : (s.turned b).start = s.start := start_moved s b
  have hturned : turned { s with position := s.position + 1 } b = s.moved b := by
    rw [turned_elsewhere s b (s.position + 1) s.start, ← hstart, moved]
  rw [Performs, completes_elsewhere s b (s.position + 1) s.start, hturned] at hstep
  exact hstep

theorem mode_step (limit : Nat) (s : State) (b : UInt8) :
    (s.step limit b).2 = .tooLarge ∨ (s.step limit b).1.mode = (s.effect b).2 := by
  rw [step_eq]
  split
  · exact .inl rfl
  · exact .inr rfl

theorem step_of_fits (h : (s.effect b).1.exceeds limit s.size = false) :
    s.step limit b = (s.moved b, if s.completes b then .boundary else .more) := by
  simp [step_eq, h]

theorem step_of_exceeds (h : (s.effect b).1.exceeds limit s.size = true) :
    s.step limit b = ({ s.moved b with mode := s.refusalMode }, .tooLarge) := by
  simp [step_eq, h]

end State

end SqlBackup.Scan

namespace SqlBackup.Scan.State

variable {limit : Nat} {s t : State} {b : UInt8}

theorem step_frame {signal : Signal} (h : s.step limit b = (t, signal)) :
    t.delimiter = s.delimiter ∧ t.position = s.position + 1 ∧ t.start = s.start := by
  rw [step_eq] at h
  split at h
  · obtain ⟨rfl, -⟩ := Prod.mk.inj h
    exact ⟨delimiter_moved s b, rfl, start_moved s b⟩
  · obtain ⟨rfl, -⟩ := Prod.mk.inj h
    exact ⟨delimiter_moved s b, rfl, start_moved s b⟩

/-- Only a byte of code completes the delimiter, and it is the last of the text then. -/
theorem moved_of_completes (h : s.completes b = true) :
    s.mode = .code ∧ (s.moved b).mode = .code ∧ (s.moved b).pending = b :: s.pending ∧
      (s.moved b).atDelimiter = true := by
  simp only [completes, Bool.and_eq_true, beq_iff_eq] at h
  obtain ⟨⟨⟨hmode, hmode'⟩, hbegun⟩, hends⟩ := h
  refine ⟨hmode, hmode', ?_, hends⟩
  have heffect := effect.eq_def s b
  simp only [hmode] at heffect
  split_ifs at heffect with hquote hhash hdash hstar
  · simp [turned_of_effect heffect] at hmode'
  · simp [turned_of_effect heffect] at hmode'
  · simp [turned_of_effect heffect] at hmode'
  · simp [turned_of_effect heffect] at hmode'
  · rw [turned_of_effect heffect] at hbegun
    rw [moved, turned_of_effect heffect]
    unfold addition at hbegun ⊢
    split at hbegun
    · next hblank => simp_all [Effect.on]
    · next hblank => simp only [if_neg hblank, Effect.on]

theorem step_boundary (h : s.step limit b = (t, .boundary)) :
    s.mode = .code ∧ t.mode = .code ∧ t.pending = b :: s.pending ∧ t.atDelimiter = true := by
  rw [step_eq] at h
  split at h
  · cases (Prod.mk.inj h).2
  split at h
  · next hcompletes =>
    obtain ⟨rfl, -⟩ := Prod.mk.inj h
    exact moved_of_completes hcompletes
  · cases (Prod.mk.inj h).2

theorem size_moved_le (s : State) (b : UInt8) : (s.moved b).size ≤ s.size + 1 := by
  have hon (effect : Effect) : (effect.on s).size ≤ s.size + 1 := by
    cases effect with
    | none => exact Nat.le_succ _
    | add b => exact le_rfl
    | takeBack =>
      simp only [Effect.on, unpush]
      omega
  exact hon (s.effect b).1

/-- A text grows by one byte at most, and is too large only beyond the limit. -/
theorem step_grows {signal : Signal} (h : s.step limit b = (t, signal)) :
    t.size ≤ s.size + 1 ∧ (signal = .tooLarge → limit < s.size + 1) := by
  have hsize := size_moved_le s b
  rw [step_eq] at h
  split at h
  · next hexceeds =>
    obtain ⟨rfl, -⟩ := Prod.mk.inj h
    refine ⟨hsize, fun _ => ?_⟩
    cases heffect : (s.effect b).1 with
    | none => simp [heffect, Effect.exceeds] at hexceeds
    | add c => simpa [heffect, Effect.exceeds] using hexceeds
    | takeBack => simp [heffect, Effect.exceeds] at hexceeds
  · obtain ⟨rfl, rfl⟩ := Prod.mk.inj h
    refine ⟨hsize, fun hlarge => ?_⟩
    split at hlarge <;> cases hlarge

/-- Taking a text leaves none behind, and may move the start of the next one. -/
theorem take_cases (s : State) (atBoundary : Bool) :
    (s.take atBoundary).1 = s.cleared ∨
      (s.take atBoundary).1 = { s.cleared with start := s.position } := by
  unfold take
  dsimp only
  split
  · exact .inl rfl
  · split
    · exact .inl rfl
    · exact .inr rfl

theorem take_frame {atBoundary : Bool} {answer : Except Fault (Option Statement)}
    (h : s.take atBoundary = (t, answer)) :
    t.delimiter = s.delimiter ∧ t.position = s.position := by
  have hcases := take_cases s atBoundary
  rw [h] at hcases
  rcases hcases with rfl | rfl <;> exact ⟨rfl, rfl⟩

theorem size_take (s : State) (atBoundary : Bool) : (s.take atBoundary).1.size = 0 := by
  rcases take_cases s atBoundary with h | h <;> rw [h] <;> rfl

/-- Taking a text out fails only for want of well-formed text. -/
theorem take_error {atBoundary : Bool} {fault : Fault} (h : (s.take atBoundary).2 = .error fault) :
    fault = .invalidEncoding s.position := by
  unfold take at h
  dsimp only at h
  split at h
  · exact (Except.error.inj h).symm
  · split at h <;> cases h

theorem mode_take (s : State) (atBoundary : Bool) : (s.take atBoundary).1.mode = s.mode := by
  rcases take_cases s atBoundary with h | h <;> rw [h] <;> rfl

/-- Behind a statement a scanner is in the state in which one starts there. -/
theorem take_statement {atBoundary : Bool} {statement : Statement} (hmode : s.mode = .code)
    (h : s.take atBoundary = (t, .ok (some statement))) :
    t = initial s.position s.delimiter ∧ statement.endOffset = s.position := by
  unfold take at h
  dsimp only at h
  split at h
  · simp at h
  · split at h
    · simp at h
    · simp only [Prod.mk.injEq, Except.ok.injEq, Option.some.injEq] at h
      obtain ⟨rfl, rfl⟩ := h
      simp [initial, cleared, hmode]

end SqlBackup.Scan.State
