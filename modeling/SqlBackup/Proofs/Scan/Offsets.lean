import SqlBackup.Proofs.Scan.Directive
import SqlBackup.Proofs.Scan.Failing
import SqlBackup.Proofs.Scan.Resume

/-!
# Where statements stand

The statements of a stream end one behind the other, each behind the offset that the scanner
started from, and a scanner that comes to the end of its stream has counted every byte of it. The
delimiter changes with directives only.
-/
namespace SqlBackup

namespace Scan

theorem Delimiter.ext_bytes {d d' : Delimiter} (h : d.bytes = d'.bytes) : d = d' := by
  obtain ⟨bytes, backward, size, rfl, rfl⟩ := d
  obtain ⟨bytes', backward', size', rfl, rfl⟩ := d'
  cases h
  rfl

theorem Delimiter.ofBytes_bytes {d : Delimiter} (h : d.EndsInLine) : .ofBytes d.bytes = d := by
  obtain ⟨b, hb, -⟩ := h
  have hne : d.bytes ≠ [] := by
    intro hnil
    simp [hnil] at hb
  exact ext_bytes (by simp [ofBytes, hne])

/-- The offsets behind the statements that were yielded. -/
def endOffsets (results : List Result) : List Nat :=
  (results.filterMap Result.statement?).map (·.endOffset)

/-- The statements end one behind the other, all of them behind the first of these offsets and none
behind the other, which is where the stream ends. -/
structure Rising (low high : Nat) (results : List Result) : Prop where
  increasing : (low :: endOffsets results).Pairwise (· < ·)
  within : ∀ e ∈ endOffsets results, e ≤ high
  ended : ∀ r ∈ results, r.answer = .ok none → r.position = high

theorem rising_of_last {low high : Nat} {r : Result} (h : r.statement? = none)
    (hend : r.answer = .ok none → r.position = high) : Rising low high [r] := by
  constructor
  · simp [endOffsets, h]
  · simp [endOffsets, h]
  · simpa using hend

theorem Rising.cons {low high : Nat} {results : List Result} {r : Result} {statement : Statement}
    (hr : r.answer = .ok (some statement)) (hlow : low < statement.endOffset)
    (hhigh : statement.endOffset ≤ high) (h : Rising statement.endOffset high results) :
    Rising low high (r :: results) := by
  have hsome : r.statement? = some statement := by rw [Result.statement?, hr]
  have hends : endOffsets (r :: results) = statement.endOffset :: endOffsets results := by
    rw [endOffsets, List.filterMap_cons_some hsome, List.map_cons]
    rfl
  constructor
  · rw [hends, List.pairwise_cons]
    refine ⟨?_, h.increasing⟩
    rw [List.forall_mem_cons]
    exact ⟨hlow, fun e he => hlow.trans ((List.pairwise_cons.mp h.increasing).1 e he)⟩
  · rw [hends, List.forall_mem_cons]
    exact ⟨hhigh, h.within⟩
  · rw [List.forall_mem_cons]
    refine ⟨fun hnone => ?_, h.ended⟩
    rw [hr] at hnone
    cases hnone

namespace State

/-- Text that is held was read behind the last statement. -/
structure Forward (s : State) : Prop where
  start_le : s.start ≤ s.position
  pending : s.pending ≠ [] → s.start < s.position

variable {limit : Nat} {settings : Settings} {s t : State} {b : UInt8} {bytes : List UInt8}
  {lineStart : Bool} {d : Delimiter}

theorem forward_initial (offset : Nat) (d : Delimiter) : (initial offset d).Forward :=
  ⟨le_rfl, fun hne => (hne rfl).elim⟩

/-- A byte moves a scanner away from the last statement. -/
theorem Forward.step {signal : Signal} (hs : s.Forward) (h : s.step limit b = (t, signal)) :
    t.start < t.position := by
  obtain ⟨-, hposition, hstart⟩ := step_frame h
  rw [hposition, hstart]
  exact Nat.lt_succ_of_le hs.start_le

theorem forward_of_lt (h : s.start < s.position) : s.Forward := ⟨h.le, fun _ => h⟩

theorem Forward.take_none (hs : s.Forward) {atBoundary : Bool}
    (h : s.take atBoundary = (t, .ok none)) : t.Forward := by
  unfold take at h
  dsimp only at h
  split at h
  · cases (Prod.mk.inj h).2
  split at h
  · obtain ⟨rfl, -⟩ := Prod.mk.inj h
    exact ⟨hs.start_le, fun hne => (hne rfl).elim⟩
  · cases (Prod.mk.inj h).2

theorem start_of_take_none {atBoundary : Bool} (h : s.take atBoundary = (t, .ok none)) :
    t.start = s.start := by
  unfold take at h
  dsimp only at h
  split at h
  · cases (Prod.mk.inj h).2
  split at h
  · obtain ⟨rfl, -⟩ := Prod.mk.inj h
    rfl
  · cases (Prod.mk.inj h).2

/-- Nothing makes no statement. -/
theorem pending_ne_nil_of_take {atBoundary : Bool} {statement : Statement}
    (h : s.take atBoundary = (t, .ok (some statement))) : s.pending ≠ [] := by
  intro hnil
  simp [take, hnil, Text.trim] at h

theorem rising_transcript (hs : s.Forward) :
    Rising s.start (s.position + bytes.length) (s.transcript settings lineStart bytes) := by
  fun_induction transcript settings s lineStart bytes with
  | case1 s lineStart bytes d hd c =>
    rename_i ih
    have hlength := congrArg List.length (Chunk.cut_append (settings.room + 1) bytes)
    have hread := List.length_pos_iff.mpr (cut_ne_nil_of_directiveAt? hd)
    rw [List.length_append] at hlength
    have hnext := ih (forward_of_lt (Nat.lt_of_le_of_lt hs.start_le (Nat.lt_add_of_pos_right hread)))
    rwa [obey, Nat.add_assoc, hlength] at hnext
  | case2 s lineStart _ t last htake =>
    obtain ⟨rfl, hend⟩ := take_statement rfl htake
    have hlow := hs.pending (@pending_ne_nil_of_take { s with mode := .code } _ _ _ htake)
    exact .cons rfl (hlow.trans_eq hend.symm) hend.le (rising_of_last rfl fun _ => rfl)
  | case3 s lineStart _ t answer hlast htake =>
    have hposition := (take_frame htake).2
    refine rising_of_last ?_ fun _ => hposition
    rcases answer with fault | (_ | statement)
    · rfl
    · rfl
    · exact (hlast statement rfl).elim
  | case4 s lineStart b bytes _ t hstep ih =>
    obtain ⟨-, hposition, hstart⟩ := step_frame hstep
    have hnext := ih (forward_of_lt (hs.step hstep))
    rwa [hstart, hposition, Nat.add_assoc, Nat.add_comm 1] at hnext
  | case5 s lineStart b bytes _ t hstep => exact rising_of_last rfl (by simp [shown])
  | case6 s lineStart b bytes _ t hstep u htake ih =>
    obtain ⟨-, hposition, hstart⟩ := step_frame hstep
    have hnext := ih ((forward_of_lt (hs.step hstep)).take_none htake)
    rwa [start_of_take_none htake, (take_frame htake).2, hstart, hposition, Nat.add_assoc,
      Nat.add_comm 1] at hnext
  | case7 s lineStart b bytes _ t hstep u yielded htake ih =>
    have hposition := (step_frame hstep).2.1
    obtain ⟨rfl, hend⟩ := take_statement (step_boundary hstep).2.1 htake
    have hlow := hs.step hstep
    rw [(step_frame hstep).2.2] at hlow
    have hnext := ih (forward_initial _ _)
    rw [initial, hposition, Nat.add_assoc, Nat.add_comm 1] at hnext
    refine .cons rfl (hlow.trans_eq hend.symm) ?_ ?_
    · rw [hend, hposition, List.length_cons]
      omega
    · rw [hend, hposition]
      exact hnext
  | case8 s lineStart b bytes _ t hstep u fault htake => exact rising_of_last rfl (by simp [shown])

theorem not_noDirective (hd : s.directiveAt? settings lineStart bytes = some d) :
    ¬ NoDirective settings lineStart bytes := by
  intro h
  cases bytes with
  | nil => exact cut_ne_nil_of_directiveAt? hd rfl
  | cons b bytes =>
    rw [directiveAt?] at hd
    split at hd
    · next hstart =>
      simp only [Bool.and_eq_true] at hstart
      rw [h.1 hstart.1.1] at hd
      cases hd
    · cases hd

/-- The delimiter stays but where a line is a directive, which sets it. -/
theorem delimiter_transcript : ∀ r ∈ s.transcript settings lineStart bytes,
    r.delimiter = s.delimiter ∨
      ¬ NoDirective settings lineStart bytes ∧ r.delimiter.EndsInLine := by
  fun_induction transcript settings s lineStart bytes with
  | case1 s lineStart bytes d hd c =>
    rename_i ih
    intro r hr
    refine .inr ⟨not_noDirective hd, ?_⟩
    rcases ih r hr with hsame | ⟨-, hset⟩
    · rw [hsame]
      exact endsInLine_of_directiveAt? hd
    · exact hset
  | case2 s lineStart _ t last htake =>
    simp [shown, (take_frame htake).1]
  | case3 s lineStart _ t answer hlast htake =>
    simp [shown, (take_frame htake).1]
  | case4 s lineStart b bytes _ t hstep ih =>
    rw [← (step_frame hstep).1]
    exact fun r hr => (ih r hr).imp_right fun h => ⟨fun hall => h.1 hall.2, h.2⟩
  | case5 s lineStart b bytes _ t hstep => simp [shown, (step_frame hstep).1]
  | case6 s lineStart b bytes _ t hstep u htake ih =>
    rw [← (step_frame hstep).1, ← (take_frame htake).1]
    exact fun r hr => (ih r hr).imp_right fun h => ⟨fun hall => h.1 hall.2, h.2⟩
  | case7 s lineStart b bytes _ t hstep u yielded htake ih =>
    rw [← (step_frame hstep).1, ← (take_frame htake).1, List.forall_mem_cons]
    exact ⟨.inl rfl, fun r hr => (ih r hr).imp_right fun h => ⟨fun hall => h.1 hall.2, h.2⟩⟩
  | case8 s lineStart b bytes _ t hstep u fault htake =>
    simp [shown, (take_frame htake).1, (step_frame hstep).1]

/-! ### Another delimiter -/

/-- The same state with another delimiter. -/
def delimited (s : State) (d : Delimiter) : State := { s with delimiter := d }

theorem turned_delimited (s : State) (d : Delimiter) (b : UInt8) :
    (s.delimited d).turned b = (s.turned b).delimited d := by
  have heffect : (s.delimited d).effect b = s.effect b := rfl
  rw [turned, turned, heffect]
  cases (s.effect b).1 <;> rfl

/-- A byte behind which the text does not end with the other delimiter does the same. -/
theorem step_delimited (h : s.step limit b = (t, .more))
    (hends : d.ends t.pending t.size = false) :
    (s.delimited d).step limit b = (t.delimited d, .more) := by
  rw [step_eq] at h
  split at h
  · cases (Prod.mk.inj h).2
  next hfits =>
  obtain ⟨rfl, -⟩ := Prod.mk.inj h
  have hcompletes : (s.delimited d).completes b = false := by
    have hends' : ((s.turned b).delimited d).atDelimiter = false := hends
    rw [completes, turned_delimited, hends', Bool.and_false]
  have hfits' : ((s.delimited d).effect b).1.exceeds limit (s.delimited d).size = false :=
    Bool.eq_false_iff.mpr hfits
  rw [step_of_fits hfits', hcompletes, moved, turned_delimited]
  rfl

/-- Whether a scanner comes to a directive, and neither its own delimiter nor this one stands in
front of that. -/
def meetsDirective (settings : Settings) (d : Delimiter) (s : State) (lineStart : Bool) :
    List UInt8 → Bool
  | [] => false
  | b :: bytes =>
      (s.directiveAt? settings lineStart (b :: bytes)).isSome ||
        match s.step settings.limit b with
        | (t, .more) =>
            !d.ends t.pending t.size && meetsDirective settings d t (b == 0x0A) bytes
        | _ => false

/-- In front of a directive, where neither delimiter stands, it does not matter which is the one. -/
theorem transcript_delimited (h : s.meetsDirective settings d lineStart bytes = true) :
    (s.delimited d).transcript settings lineStart bytes =
      s.transcript settings lineStart bytes := by
  induction bytes generalizing s lineStart with
  | nil => cases h
  | cons b bytes ih =>
    have hsame : (s.delimited d).directiveAt? settings lineStart (b :: bytes) =
        s.directiveAt? settings lineStart (b :: bytes) := rfl
    rw [meetsDirective, Bool.or_eq_true] at h
    cases hdirective : s.directiveAt? settings lineStart (b :: bytes) with
    | some d' =>
      rw [transcript_of_directive hdirective, transcript_of_directive (hsame.trans hdirective)]
      rfl
    | none =>
      have hread := h.resolve_left (by simp [hdirective])
      split at hread
      · next t hstep =>
        rw [Bool.and_eq_true, Bool.not_eq_true'] at hread
        rw [transcript_cons hdirective, transcript_cons (hsame.trans hdirective), hstep,
          step_delimited hstep hread.1]
        exact ih hread.2
      · cases hread

end State

end Scan

end SqlBackup
