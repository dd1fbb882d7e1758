import SqlBackup.Proofs.Scan.Ahead
import SqlBackup.Proofs.Scan.Failing

/-!
# Lines that say nothing

What a scanner says does not depend on where in a dump it stands, and a blank line or a comment that
takes up a line changes nothing else. So such lines can be left out of a dump.
-/
namespace SqlBackup.Scan

open Text Text.Utf8

/-- What a call says, wherever its statement stands: the text or the end, unless it failed, and the
delimiter. -/
def Result.said (r : Result) : Option (Option String) × Delimiter := (r.sql?.toOption, r.delimiter)

namespace State

/-! ### The same bytes elsewhere -/

/-- The same state at another place of the dump. -/
def placed (s : State) (position start : Nat) : State := { s with position, start }

theorem moved_placed (s : State) (b : UInt8) (p q : Nat) :
    (s.placed p q).moved b = (s.moved b).placed (p + 1) q := by
  rw [moved, placed, turned_elsewhere]
  rfl

/-- A byte does the same wherever it stands. -/
theorem step_placed (limit : Nat) (s : State) (b : UInt8) (p q : Nat) :
    (s.placed p q).step limit b = ((s.step limit b).1.placed (p + 1) q, (s.step limit b).2) := by
  have heffect : (s.placed p q).effect b = s.effect b := rfl
  have hsize : (s.placed p q).size = s.size := rfl
  have hcompletes : (s.placed p q).completes b = s.completes b := completes_elsewhere s b p q
  rw [step_eq, step_eq, heffect, hsize, moved_placed, hcompletes]
  cases (s.effect b).1.exceeds limit s.size with
  | true => rfl
  | false => rfl

/-- What an answer says, wherever its statement stands. -/
def heard (answer : Scanner.Answer) : Option (Option String) :=
  answer.toOption.map (Option.map (·.sql))

/-- So does the end of a statement, but for where the statement stands. -/
theorem take_placed (s : State) (atBoundary : Bool) (p q : Nat) :
    ∃ p' q' answer, (s.placed p q).take atBoundary = ((s.take atBoundary).1.placed p' q', answer) ∧
      heard answer = heard (s.take atBoundary).2 := by
  have hpending : (s.placed p q).pending = s.pending := rfl
  have hdelimiter : (s.placed p q).delimiter = s.delimiter := rfl
  unfold take
  rw [hpending, hdelimiter]
  dsimp only
  split
  · exact ⟨p, q, _, rfl, rfl⟩
  split
  · exact ⟨p, q, _, rfl, rfl⟩
  · exact ⟨p, p, _, rfl, rfl⟩

theorem said_shown (s : State) (answer : Scanner.Answer) :
    (s.shown answer).said = (heard answer, s.delimiter) := by
  rcases answer with fault | statement
  · rfl
  · rfl

/-- Answers that say the same are of one kind. -/
theorem heard_cases {answer answer' : Scanner.Answer} (h : heard answer' = heard answer) :
    match answer with
    | .ok (some statement) => ∃ other, answer' = .ok (some other) ∧ other.sql = statement.sql
    | .ok none => answer' = .ok none
    | .error _ => ∃ fault, answer' = .error fault := by
  rcases answer with fault | (_ | statement) <;> rcases answer' with fault' | (_ | statement')
  · exact ⟨fault', rfl⟩
  · cases h
  · cases h
  · cases h
  · rfl
  · cases h
  · cases h
  · cases h
  · exact ⟨statement', rfl, Option.some_inj.mp (Option.some_inj.mp h)⟩

theorem directiveAt?_placed (settings : Settings) (s : State) (lineStart : Bool)
    (bytes : List UInt8) (p q : Nat) :
    (s.placed p q).directiveAt? settings lineStart bytes =
      s.directiveAt? settings lineStart bytes := rfl

theorem placed_code (s : State) (p q : Nat) :
    { s.placed p q with mode := .code } = placed { s with mode := .code } p q := rfl

/-- A transcript says the same wherever the bytes stand. -/
theorem said_placed (settings : Settings) (s : State) (lineStart : Bool) (bytes : List UInt8)
    (p q : Nat) : ((s.placed p q).transcript settings lineStart bytes).map Result.said =
      (s.transcript settings lineStart bytes).map Result.said := by
  fun_induction transcript settings s lineStart bytes generalizing p q with
  | case1 s lineStart bytes d hd c ih =>
    rw [transcript_of_directive ((directiveAt?_placed _ _ _ _ p q).trans hd)]
    exact ih (p + c.bytes.length) q
  | case2 s lineStart hnone t statement htake =>
    obtain ⟨p', q', answer, hplaced, hheard⟩ := take_placed { s with mode := .code } false p q
    rw [htake] at hplaced hheard
    obtain ⟨other, rfl, hsql⟩ := heard_cases hheard
    rw [transcript_nil, placed_code, hplaced]
    simp only [List.map_cons, List.map_nil, said_shown, heard, hsql, placed, Except.toOption,
      Option.map_some]
  | case3 s lineStart hnone t answer hlast htake =>
    obtain ⟨p', q', answer', hplaced, hheard⟩ := take_placed { s with mode := .code } false p q
    rw [htake] at hplaced hheard
    rw [transcript_nil, placed_code, hplaced]
    rcases answer with fault | (_ | statement)
    · obtain ⟨fault', rfl⟩ := heard_cases hheard
      rfl
    · have hsame : answer' = .ok none := heard_cases hheard
      subst hsame
      rfl
    · exact (hlast statement rfl).elim
  | case4 s lineStart b bytes hnone t hstep ih =>
    rw [transcript_cons ((directiveAt?_placed _ _ _ _ p q).trans hnone), step_placed, hstep]
    exact ih (p + 1) q
  | case5 s lineStart b bytes hnone t hstep =>
    rw [transcript_cons ((directiveAt?_placed _ _ _ _ p q).trans hnone), step_placed, hstep]
    rfl
  | case6 s lineStart b bytes hnone t hstep u htake ih =>
    obtain ⟨p', q', answer, hplaced, hheard⟩ := take_placed t true (p + 1) q
    rw [htake] at hplaced hheard
    have hsame : answer = .ok none := heard_cases hheard
    subst hsame
    rw [transcript_cons ((directiveAt?_placed _ _ _ _ p q).trans hnone), step_placed, hstep]
    dsimp only
    rw [hplaced]
    exact ih p' q'
  | case7 s lineStart b bytes hnone t hstep u statement htake ih =>
    obtain ⟨p', q', answer, hplaced, hheard⟩ := take_placed t true (p + 1) q
    rw [htake] at hplaced hheard
    obtain ⟨other, rfl, hsql⟩ := heard_cases hheard
    rw [transcript_cons ((directiveAt?_placed _ _ _ _ p q).trans hnone), step_placed, hstep]
    dsimp only
    rw [hplaced]
    dsimp only
    rw [List.map_cons, List.map_cons, ih p' q', said_shown, said_shown, hheard]
    rfl
  | case8 s lineStart b bytes hnone t hstep u fault htake =>
    obtain ⟨p', q', answer, hplaced, hheard⟩ := take_placed t true (p + 1) q
    rw [htake] at hplaced hheard
    obtain ⟨fault', rfl⟩ := heard_cases hheard
    rw [transcript_cons ((directiveAt?_placed _ _ _ _ p q).trans hnone), step_placed, hstep]
    dsimp only
    rw [hplaced]
    rfl

end State

/-! ### Blank lines and comments -/

variable {settings : Settings} {d : Delimiter} {position start : Nat} {rest : List UInt8}

/-- A state in code with no text pending. -/
def State.free (d : Delimiter) (position start : Nat) : State :=
  ⟨.code, false, [], 0, d, position, start⟩

theorem State.holds_free (d : Delimiter) (position start : Nat) :
    (State.free d position start).Holds [] :=
  (State.holds_initial position d).of_eq rfl rfl rfl

/-- In code, a state that holds nothing is known but for where it stands. -/
theorem State.Holds.eq_free {s : State} (h : s.Holds []) (hmode : s.mode = .code) :
    s = .free s.delimiter s.position s.start := by
  have hpending : s.pending = [] := by
    have hnil := h.pending
    rwa [List.map_nil, List.dropWhile_nil, List.reverse_eq_nil_iff] at hnil
  have hsize : s.size = 0 := by rw [h.size, hpending, List.length_nil]
  have hbegun : s.begun = false := by rw [h.begun, hpending]; rfl
  obtain ⟨mode, begun, pending, size, delimiter, position, start⟩ := s
  cases hmode
  cases hpending
  cases hsize
  cases hbegun
  rfl

/-- A single dash ends with no other delimiter than itself. -/
theorem Delimiter.ends_dash_iff {d : Delimiter} :
    d.ends [0x2D] 1 = true ↔ d.bytes = [] ∨ d.bytes = [0x2D] := by
  rw [show 1 = [(0x2D : UInt8)].length from rfl, ends_eq, List.isPrefixOf_iff_prefix,
    ← List.reverse_singleton, List.reverse_prefix]
  constructor
  · rintro ⟨front, hfront⟩
    rcases List.append_eq_singleton_iff.mp hfront with ⟨-, hbytes⟩ | ⟨-, hbytes⟩
    · exact .inr hbytes
    · exact .inl hbytes
  · rintro (hbytes | hbytes) <;> simp [hbytes]

theorem Delimiter.ends_dash {d : Delimiter} (hd : ∃ b ∈ d.bytes, b ≠ 0x2D) :
    d.ends [0x2D] 1 = false := by
  obtain ⟨b, hb, hne⟩ := hd
  rw [Bool.eq_false_iff, Ne, ends_dash_iff]
  rintro (hbytes | hbytes)
  · simp [hbytes] at hb
  · simp [hbytes, hne] at hb

theorem exists_ne_dash_semicolon : ∃ b ∈ semicolon.bytes, b ≠ 0x2D :=
  ⟨0x3B, List.mem_singleton_self _, by decide⟩

/-- A state in a comment with no text pending. -/
def State.remark (d : Delimiter) (position start : Nat) : State :=
  ⟨.lineComment, false, [], 0, d, position, start⟩

/-- A chunk of bytes with a line feed is complete. -/
theorem Chunk.complete_of_mem {n : Nat} {bytes : List UInt8} (h : 0x0A ∈ bytes) :
    (Chunk.cut n bytes).complete = true := by
  induction n generalizing bytes with
  | zero => rfl
  | succ n ih =>
    cases bytes with
    | nil => exact absurd h List.not_mem_nil
    | cons b bytes =>
      by_cases hfeed : (b == 0x0A) = true
      · simp only [Chunk.cut, hfeed, if_true]
      · have hmem : 0x0A ∈ bytes := by
          rcases List.mem_cons.mp h with rfl | hmem
          · exact absurd rfl hfeed
          · exact hmem
        simp only [Chunk.cut, hfeed]
        exact ih hmem

/-- The first chunk of a line does not depend on the lines behind it. -/
theorem Chunk.cut_line (n : Nat) (line rest : List UInt8) :
    (Chunk.cut n (line ++ 0x0A :: rest)).bytes = (Chunk.cut n (line ++ [0x0A])).bytes := by
  have hcomplete : (Chunk.cut n (line ++ [0x0A])).complete = true :=
    Chunk.complete_of_mem (List.mem_append_right line (List.mem_singleton_self _))
  have hcut := Chunk.cut_append_of_complete hcomplete rest
  rw [List.append_assoc, List.singleton_append] at hcut
  rw [hcut]

namespace State

/-- Behind a comment a state is as it was before it. -/
theorem transcript_remark {lineStart : Bool} {line : List UInt8} (hline : 0x0A ∉ line) :
    (remark d position start).transcript settings lineStart (line ++ 0x0A :: rest) =
      (free d (position + (line.length + 1)) start).transcript settings true rest := by
  have hdirective (lineStart : Bool) (position : Nat) (bytes : List UInt8) :
      (remark d position start).directiveAt? settings lineStart bytes = none := by
    simp [directiveAt?, remark]
  induction line generalizing position lineStart with
  | nil =>
    have hstep : (remark d position start).step settings.limit 0x0A =
        (free d (position + 1) start, .more) := rfl
    rw [List.nil_append, transcript_cons (hdirective _ _ _), hstep]
    rfl
  | cons b line ih =>
    rw [List.mem_cons, not_or] at hline
    have hstep : (remark d position start).step settings.limit b =
        (remark d (position + 1) start, .more) := by
      simp only [step, stepMode, remark, beq_iff_eq, Ne.symm hline.1, if_false]
    rw [List.cons_append, transcript_cons (hdirective _ _ _), hstep]
    dsimp only
    rw [ih hline.2, List.length_cons]
    congr 2
    omega

/-- Two dashes open a comment. -/
theorem transcript_dashes (hd : d.ends [0x2D] 1 = false) (hlimit : 0 < settings.limit)
    {bytes : List UInt8}
    (hdirective : directive? (Chunk.cut (settings.room + 1) (0x2D :: 0x2D :: bytes)).bytes = none) :
    (free d position start).transcript settings true (0x2D :: 0x2D :: bytes) =
      (remark d (position + 2) start).transcript settings false bytes := by
  have hopen : (free d position start).directiveAt? settings true (0x2D :: 0x2D :: bytes) =
      none := by
    simpa [directiveAt?, free] using hdirective
  have hfirst : (free d position start).step settings.limit 0x2D =
      (⟨.code, true, [0x2D], 1, d, position + 1, start⟩, .more) := by
    have hsmall : ¬ settings.limit < 0 + 1 := by omega
    simp [step, stepMode, stepCode, push, free, atDelimiter, isAsciiBlank, hd, hsmall]
  have hsecond : State.step settings.limit ⟨.code, true, [0x2D], 1, d, position + 1, start⟩ 0x2D =
      (remark d (position + 2) start, .more) := rfl
  have hfeed : ((0x2D : UInt8) == 0x0A) = false := rfl
  rw [transcript_cons hopen, hfirst]
  dsimp only
  rw [hfeed, transcript_cons (directiveAt?_false settings _ _), hsecond]
  rfl

/-- So does a number sign, whatever the delimiter. -/
theorem transcript_hash {bytes : List UInt8}
    (hdirective : directive? (Chunk.cut (settings.room + 1) (0x23 :: bytes)).bytes = none) :
    (free d position start).transcript settings true (0x23 :: bytes) =
      (remark d (position + 1) start).transcript settings false bytes := by
  have hopen : (free d position start).directiveAt? settings true (0x23 :: bytes) = none := by
    simpa [directiveAt?, free] using hdirective
  have hstep : (free d position start).step settings.limit 0x23 =
      (remark d (position + 1) start, .more) := rfl
  rw [transcript_cons hopen, hstep]
  rfl

/-- A blank line moves the position only. -/
theorem transcript_lineFeed
    (hdirective : directive? (Chunk.cut (settings.room + 1) (0x0A :: rest)).bytes = none) :
    (free d position start).transcript settings true (0x0A :: rest) =
      (free d (position + 1) start).transcript settings true rest := by
  have hopen : (free d position start).directiveAt? settings true (0x0A :: rest) = none := by
    simpa [directiveAt?, free] using hdirective
  have hstep : (free d position start).step settings.limit 0x0A =
      (free d (position + 1) start, .more) := by
    simp [step, stepMode, stepCode, push, free, isAsciiBlank]
  rw [transcript_cons hopen, hstep]
  rfl

end State

end SqlBackup.Scan
