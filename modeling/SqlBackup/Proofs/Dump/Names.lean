import SqlBackup.Proofs.Dump.Keeping
import SqlBackup.Proofs.Dump.Sealed

/-!
# Names in backticks

A scanner that reads a name in backticks stands in code again behind the last of them, and has met
neither the end of a statement nor a comment on the way. But it takes a backslash for an escape,
which the backticks do not: a name must have no backslash that would take away the backtick behind
it, be it one of two or the last.
-/
namespace SqlBackup

namespace Scan

open Text

/-- The mode behind a byte of a name in backticks. In code only a backtick goes on. -/
def Mode.inName? : Mode → UInt8 → Option Mode
  | .code, b => if b == 0x60 then some (.quoted b) else none
  | .quoted q, b => some (if b == 0x5C then .escaped q else if b == q then .code else .quoted q)
  | .escaped q, _ => some (.quoted q)
  | .lineComment, _ => none
  | .blockComment _, _ => none

/-- A mode that is no part of a stretch in backticks. -/
def Mode.IsOutside (mode : Mode) : Prop := mode ≠ .quoted 0x60 ∧ mode ≠ .escaped 0x60

/-- The mode behind a backtick. -/
def Mode.afterBacktick : Mode → Mode
  | .code => .quoted 0x60
  | .quoted q => if 0x60 == q then .code else .quoted q
  | .escaped q => .quoted q
  | .lineComment => .lineComment
  | .blockComment _ => .blockComment false

/-- The modes that a name in backticks leads through. -/
def Mode.IsInName (mode : Mode) : Prop :=
  mode = .code ∨ mode = .quoted 0x60 ∨ mode = .escaped 0x60

theorem Mode.eq_of_inName?_code {mode : Mode} {b : UInt8} (h : inName? .code b = some mode) :
    b = 0x60 ∧ mode = .quoted 0x60 := by
  simp only [inName?, Option.ite_none_right_eq_some, beq_iff_eq, Option.some_inj] at h
  obtain ⟨rfl, rfl⟩ := h
  exact ⟨rfl, rfl⟩

theorem Mode.isInName_of_inName? {mode mode' : Mode} {b : UInt8} (h : mode.inName? b = some mode')
    (hmode : mode.IsInName) : mode'.IsInName := by
  rcases hmode with rfl | rfl | rfl
  · exact .inr (.inl (eq_of_inName?_code h).2)
  · obtain rfl := Option.some_inj.mp h
    split_ifs
    · exact .inr (.inr rfl)
    · exact .inl rfl
    · exact .inr (.inl rfl)
  · obtain rfl := Option.some_inj.mp h
    exact .inr (.inl rfl)

theorem Mode.isInName_of_foldlM {mode mode' : Mode} {bytes : List UInt8}
    (h : bytes.foldlM inName? mode = some mode') (hmode : mode.IsInName) : mode'.IsInName := by
  induction bytes generalizing mode with
  | nil =>
    obtain rfl := Option.some_inj.mp h
    exact hmode
  | cons b bytes ih =>
    obtain ⟨next, hnext, hrest⟩ := Option.bind_eq_some_iff.mp h
    exact ih hrest (isInName_of_inName? hnext hmode)

namespace State

variable {limit : Nat} {s : State} {b : UInt8} {bytes : List UInt8} {mode : Mode}

/-- No byte of a name in backticks ends a statement or opens a comment. -/
theorem step_inName (h : s.mode.inName? b = some mode) (hbegun : s.mode = .code ∨ s.begun = true)
    (hroom : s.size + 1 ≤ limit) : s.step limit b = (s.holding [b] mode, .more) := by
  cases hmode : s.mode with
  | code =>
    obtain ⟨rfl, rfl⟩ := Mode.eq_of_inName?_code (hmode ▸ h)
    exact step_quote hmode (by decide) hroom
  | quoted q =>
    rw [hmode] at h hbegun
    obtain rfl := Option.some_inj.mp h
    exact step_quoted hmode (hbegun.resolve_left (by simp)) hroom
  | escaped q =>
    rw [hmode] at h hbegun
    obtain rfl := Option.some_inj.mp h
    exact step_escaped hmode (hbegun.resolve_left (by simp)) hroom
  | lineComment =>
    rw [hmode] at h
    cases h
  | blockComment star =>
    rw [hmode] at h
    cases h

theorem scan_inName (h : bytes.foldlM Mode.inName? s.mode = some mode)
    (hbegun : s.mode = .code ∨ s.begun = true) (hroom : s.size + bytes.length ≤ limit) :
    s.scan limit bytes = (s.holding bytes mode, [], none) := by
  induction bytes generalizing s with
  | nil =>
    obtain rfl := Option.some_inj.mp h
    rw [holding_nil, scan_nil]
  | cons b bytes ih =>
    obtain ⟨next, hnext, hrest⟩ := Option.bind_eq_some_iff.mp h
    have hfirst := room_holding next hroom
    rw [scan_cons (step_inName hnext hbegun hfirst.1),
      @ih (s.holding [b] next) hrest (.inr (begun_holding s b next)) hfirst.2, holding_cons]

/-! ### Outside of backticks -/

theorem effect_inName (h : s.mode.inName? b = some mode) : (s.effect b).2 = mode := by
  cases hmode : s.mode with
  | code =>
    obtain ⟨rfl, rfl⟩ := Mode.eq_of_inName?_code (hmode ▸ h)
    simp [effect, hmode]
  | quoted q =>
    rw [hmode] at h
    simpa [effect, hmode] using Option.some_inj.mp h
  | escaped q =>
    rw [hmode] at h
    simpa [effect, hmode] using Option.some_inj.mp h
  | lineComment =>
    rw [hmode] at h
    cases h
  | blockComment star =>
    rw [hmode] at h
    cases h

theorem effect_backtick (s : State) : (s.effect 0x60).2 = s.mode.afterBacktick := by
  cases hmode : s.mode with
  | blockComment star =>
    have hnot : (star && (0x60 : UInt8) == 0x2F) = false := Bool.and_eq_false_iff.mpr (.inr rfl)
    simp only [effect, hmode, hnot, Mode.afterBacktick, Bool.false_eq_true, ↓reduceIte]
    rfl
  | _ => simp [effect, hmode, Mode.afterBacktick]

/-- Only a backtick leads into a stretch in backticks. -/
theorem isOutside_effect (hs : s.mode.IsOutside) (hb : b ≠ 0x60) : (s.effect b).2.IsOutside := by
  cases hmode : s.mode with
  | code =>
    simp only [effect, hmode]
    split_ifs <;> simp [Mode.IsOutside, hb]
  | quoted q =>
    have hq : q ≠ 0x60 := by simpa [hmode, Mode.IsOutside] using hs
    simp only [effect, hmode]
    split_ifs <;> simp [Mode.IsOutside, hq]
  | escaped q =>
    have hq : q ≠ 0x60 := by simpa [hmode, Mode.IsOutside] using hs
    simp [effect, hmode, Mode.IsOutside, hq]
  | lineComment =>
    simp only [effect, hmode]
    split_ifs <;> simp [Mode.IsOutside]
  | blockComment star =>
    simp only [effect, hmode]
    split_ifs <;> simp [Mode.IsOutside]

/-- From outside of backticks these bytes lead outside of them again. -/
def StaysOutside (limit : Nat) (bytes : List UInt8) : Prop :=
  ∀ (s t : State) (rest : List UInt8), s.mode.IsOutside → s.scan limit bytes = (t, rest, none) →
    t.mode.IsOutside

theorem StaysOutside.append {front back : List UInt8} (hfront : StaysOutside limit front)
    (hback : StaysOutside limit back) : StaysOutside limit (front ++ back) := by
  intro s t rest hs hscan
  obtain ⟨u, hu, ht⟩ := exists_of_scan_append hscan
  exact hback u t rest (hfront s u [] hs hu) ht

/-- A scan of one byte that shows nothing is a step, behind which a blank text may be taken out. -/
theorem mode_of_scan_singleton {t : State} {rest : List UInt8}
    (h : s.scan limit [b] = (t, rest, none)) : t.mode = (s.effect b).2 := by
  have hmode := mode_step limit s b
  simp only [scan] at h
  split at h
  · next hstep =>
    cases h
    simpa [hstep] using hmode
  · cases h
  · next u hstep =>
    have hkept := mode_take u true
    split at h
    · next htake =>
      cases h
      rw [htake] at hkept
      rw [show t.mode = u.mode from hkept]
      simpa [hstep] using hmode
    · cases h
    · cases h

theorem staysOutside_singleton (hb : b ≠ 0x60) : StaysOutside limit [b] := by
  intro s t rest hs hscan
  rw [mode_of_scan_singleton hscan]
  exact isOutside_effect hs hb

/-- A scan of a part of a name that shows nothing leads through its modes, with room for it or
not. -/
theorem mode_of_scan_inName {t : State} {rest : List UInt8}
    (h : bytes.foldlM Mode.inName? s.mode = some mode)
    (hscan : s.scan limit bytes = (t, rest, none)) : t.mode = mode := by
  induction bytes generalizing s with
  | nil =>
    cases hscan
    exact Option.some_inj.mp h
  | cons b bytes ih =>
    obtain ⟨next, hnext, hrest⟩ := Option.bind_eq_some_iff.mp h
    obtain ⟨u, hu, ht⟩ := @exists_of_scan_append limit s [b] bytes rest t hscan
    have hmode := (mode_of_scan_singleton hu).trans (effect_inName hnext)
    exact ih (by rw [hmode]; exact hrest) ht

theorem mode_of_backtick {t : State} {rest : List UInt8}
    (h : s.scan limit [0x60] = (t, rest, none)) : t.mode = s.mode.afterBacktick :=
  (mode_of_scan_singleton h).trans (effect_backtick s)

/-- Two backticks open and close a stretch, or belong to another one. -/
theorem staysOutside_backticks : StaysOutside limit [0x60, 0x60] := by
  intro s t rest hs hscan
  obtain ⟨u, hu, ht⟩ := @exists_of_scan_append limit s [0x60] [0x60] rest t hscan
  rw [mode_of_backtick ht, mode_of_backtick hu]
  cases hmode : s.mode with
  | code => simp [Mode.afterBacktick, Mode.IsOutside]
  | quoted q =>
    have hq : q ≠ 0x60 := by simpa [hmode, Mode.IsOutside] using hs
    simp [Mode.afterBacktick, Mode.IsOutside, hq, Ne.symm hq]
  | escaped q =>
    have hq : q ≠ 0x60 := by simpa [hmode, Mode.IsOutside] using hs
    simp [Mode.afterBacktick, Mode.IsOutside, hq, Ne.symm hq]
  | lineComment => simp [Mode.afterBacktick, Mode.IsOutside]
  | blockComment star => simp [Mode.afterBacktick, Mode.IsOutside]

theorem staysOutside_of_not_mem {bytes : List UInt8} (h : 0x60 ∉ bytes) :
    StaysOutside limit bytes := by
  induction bytes with
  | nil =>
    intro s t rest hs hscan
    cases hscan
    exact hs
  | cons b bytes ih =>
    rw [List.mem_cons, not_or] at h
    exact (staysOutside_singleton (Ne.symm h.1)).append (ih h.2)

end State

end Scan

namespace Dump

open Scan Text Text.Utf8

/-- Whether a backslash of a name takes away the backtick behind it, which at the end of the name is
the one that closes it. -/
def escapesBacktick : List Char → Bool
  | [] => false
  | c :: cs =>
      if c == '\\' then
        match cs with
        | [] => true
        | d :: cs => d == '\x60' || escapesBacktick cs
      else escapesBacktick cs

/-- A name that backticks can hold. -/
def IsQuotable (name : String) : Prop := escapesBacktick name.toList = false

instance (name : String) : Decidable (IsQuotable name) := inferInstanceAs (Decidable (_ = false))

/-- A name without backslashes is one. -/
theorem isQuotable_of_not_mem {name : String} (h : '\\' ∉ name.toList) : IsQuotable name := by
  unfold IsQuotable
  generalize name.toList = cs at h
  induction cs with
  | nil => rfl
  | cons c cs ih =>
    rw [List.mem_cons, not_or] at h
    rw [escapesBacktick.eq_def]
    simpa [Ne.symm h.1] using ih h.2

/-- Bytes that neither escape nor close leave a scanner in the quoted stretch. -/
theorem foldlM_quoted {q : UInt8} {bytes : List UInt8} (h : ∀ b ∈ bytes, b ≠ 0x5C ∧ b ≠ q) :
    bytes.foldlM Mode.inName? (.quoted q) = some (.quoted q) := by
  induction bytes with
  | nil => rfl
  | cons b bytes ih =>
    rw [List.forall_mem_cons] at h
    rw [List.foldlM_cons]
    simpa [Mode.inName?, h.1] using ih h.2

theorem foldlM_encodeChar {c : Char} (h : c ≠ '\\' ∧ c ≠ '\x60') :
    (String.utf8EncodeChar c).foldlM Mode.inName? (.quoted 0x60) = some (.quoted 0x60) :=
  foldlM_quoted fun _ hb =>
    ⟨ne_of_mem_encodeChar (a := '\\') (by decide) h.1 hb,
      ne_of_mem_encodeChar (a := '\x60') (by decide) h.2 hb⟩

/-- Behind a backslash every character is text. -/
theorem foldlM_escaped (c : Char) :
    (String.utf8EncodeChar c).foldlM Mode.inName? (.escaped 0x60) = some (.quoted 0x60) := by
  by_cases hlt : c.toNat < 128
  · rw [encodeChar_of_lt hlt]
    rfl
  · have hle := fun b => le_of_mem_encodeChar (b := b) (Nat.not_lt.mp hlt)
    obtain ⟨b, bytes, hbytes⟩ := List.exists_cons_of_ne_nil (@String.utf8EncodeChar_ne_nil c)
    rw [hbytes] at hle ⊢
    refine foldlM_quoted fun d hd => ?_
    have hd := hle d (List.mem_cons_of_mem b hd)
    constructor <;> rintro rfl <;> simp at hd

/-- The bytes of some characters of a name, as they stand between the backticks. -/
def nameBytes (cs : List Char) : List UInt8 :=
  (cs.flatMap Sql.nameChar).flatMap String.utf8EncodeChar

theorem nameBytes_cons (c : Char) (cs : List Char) :
    nameBytes (c :: cs) = (Sql.nameChar c).flatMap String.utf8EncodeChar ++ nameBytes cs := by
  rw [nameBytes, List.flatMap_cons, List.flatMap_append, nameBytes]

theorem encode_quoteName (name : String) :
    encode (Sql.quoteName name) = 0x60 :: (nameBytes name.toList ++ [0x60]) := by
  have hquote : String.utf8EncodeChar '\x60' = [0x60] := by decide
  rw [Sql.quoteName, encode_ofList, List.cons_append, List.flatMap_cons, List.flatMap_append,
    List.flatMap_singleton, hquote, List.singleton_append, nameBytes]

/-- A backslash escapes the byte behind it. -/
theorem foldlM_backslash :
    ((Sql.nameChar '\\').flatMap String.utf8EncodeChar).foldlM Mode.inName? (.quoted 0x60) =
      some (.escaped 0x60) := by decide

/-- Two backticks close the quoted stretch and open it again. -/
theorem foldlM_nameChar {c : Char} (h : c ≠ '\\') :
    ((Sql.nameChar c).flatMap String.utf8EncodeChar).foldlM Mode.inName? (.quoted 0x60) =
      some (.quoted 0x60) := by
  by_cases hc : c = '\x60'
  · rw [hc]
    decide
  · rw [Sql.nameChar_of_ne hc, List.flatMap_singleton]
    exact foldlM_encodeChar ⟨h, hc⟩

/-- Between backticks a quotable name leaves a scanner in the quoted stretch. -/
theorem foldlM_nameBytes {cs : List Char} (h : escapesBacktick cs = false) :
    (nameBytes cs).foldlM Mode.inName? (.quoted 0x60) = some (.quoted 0x60) := by
  fun_induction escapesBacktick cs with
  | case1 => rfl
  | case2 => cases h
  | case3 c hc d cs ih =>
    rw [Bool.or_eq_false_iff] at h
    rw [beq_iff_eq] at hc
    subst hc
    have hplain : Sql.nameChar d = [d] := Sql.nameChar_of_ne (by simpa using h.1)
    rw [nameBytes_cons, nameBytes_cons, List.foldlM_append, foldlM_backslash, Option.bind_eq_bind,
      Option.bind_some, List.foldlM_append, hplain, List.flatMap_singleton, foldlM_escaped,
      Option.bind_eq_bind, Option.bind_some, ih h.2]
  | case4 c cs hc ih =>
    rw [nameBytes_cons, List.foldlM_append, foldlM_nameChar (by simpa using hc),
      Option.bind_eq_bind, Option.bind_some, ih h]

/-- A quotable name in backticks leads from code to code. -/
theorem foldlM_quoteName {name : String} (h : IsQuotable name) :
    (encode (Sql.quoteName name)).foldlM Mode.inName? .code = some .code := by
  have hopen : Mode.code.inName? 0x60 = some (.quoted 0x60) := by decide
  rw [encode_quoteName, List.foldlM_cons, hopen, Option.bind_eq_bind, Option.bind_some,
    List.foldlM_append, foldlM_nameBytes h]
  decide

/-- What is left to close, from a mode that a name leads through. -/
def closesFrom : Mode → List UInt8 → Bool
  | .quoted q, bytes => closes (some q) bytes
  | .escaped q, bytes => closes (some q) bytes.tail
  | _, bytes => closes none bytes

theorem closesFrom_cons {mode mode' : Mode} {b : UInt8} {rest : List UInt8}
    (h : mode.inName? b = some mode') (hrest : (∀ q, mode' ≠ .escaped q) ∨ rest ≠ []) :
    closesFrom mode (b :: rest) = closesFrom mode' rest := by
  cases mode with
  | code =>
    simp only [Mode.inName?, Option.ite_none_right_eq_some, beq_iff_eq, Option.some_inj] at h
    obtain ⟨rfl, rfl⟩ := h
    exact closes_none_quote rfl rest
  | quoted q =>
    obtain rfl := Option.some_inj.mp h
    by_cases hb : b = 0x5C
    · subst hb
      obtain ⟨c, rest, rfl⟩ :=
        List.exists_cons_of_ne_nil (hrest.resolve_left fun hno => hno q rfl)
      exact closes_some_escape q c rest
    · rw [if_neg (by simpa using hb)]
      refine (closes_some_cons hb rest).trans ?_
      split <;> rfl
  | escaped q =>
    obtain rfl := Option.some_inj.mp h
    rfl
  | lineComment => cases h
  | blockComment star => cases h

theorem closesFrom_append {mode : Mode} {bytes : List UInt8}
    (h : bytes.foldlM Mode.inName? mode = some .code) (rest : List UInt8) :
    closesFrom mode (bytes ++ rest) = closes none rest := by
  induction bytes generalizing mode with
  | nil =>
    obtain rfl := Option.some_inj.mp h
    rfl
  | cons b bytes ih =>
    obtain ⟨next, hnext, hrest⟩ := Option.bind_eq_some_iff.mp h
    rw [List.cons_append, closesFrom_cons hnext, ih hrest]
    cases bytes with
    | nil =>
      obtain rfl := Option.some_inj.mp hrest
      exact .inl (by simp)
    | cons c bytes => exact .inr (by simp)

/-- A quotable name is sealed by its backticks. -/
theorem sealed_quoteName {name : String} (h : IsQuotable name) : Sealed (Sql.quoteName name) :=
  closesFrom_append (foldlM_quoteName h)

/-! ### Names that backticks cannot hold -/

variable {limit : Nat} {s t : State} {rest : List UInt8}

theorem staysOutside_nameBytes (cs : List Char) : State.StaysOutside limit (nameBytes cs) := by
  induction cs with
  | nil => exact State.staysOutside_of_not_mem List.not_mem_nil
  | cons c cs ih =>
    rw [nameBytes_cons]
    refine State.StaysOutside.append ?_ ih
    by_cases hc : c = '\x60'
    · rw [hc, Sql.nameChar_backtick]
      exact State.staysOutside_backticks
    · rw [Sql.nameChar_of_ne hc, List.flatMap_singleton]
      exact State.staysOutside_of_not_mem fun hmem =>
        ne_of_mem_encodeChar (a := '\x60') (by decide) hc hmem rfl

/-- Outside of backticks, the last backtick of a name opens a stretch or changes nothing. -/
theorem ne_code_afterBacktick {mode : Mode} (h : mode.IsOutside) : mode.afterBacktick ≠ .code := by
  cases mode with
  | quoted q =>
    have hq : q ≠ 0x60 := by simpa [Mode.IsOutside] using h
    simp [Mode.afterBacktick, Ne.symm hq]
  | _ => simp [Mode.afterBacktick]

/-- Once a backslash has taken a backtick away, a scanner does not stand in code behind the name. -/
theorem ne_code_of_escapesBacktick {cs : List Char} (h : escapesBacktick cs = true)
    (hmode : s.mode = .quoted 0x60)
    (hscan : s.scan limit (nameBytes cs ++ [0x60]) = (t, rest, none)) : t.mode ≠ .code := by
  fun_induction escapesBacktick cs generalizing s with
  | case1 => cases h
  | case2 c hc =>
    rw [beq_iff_eq] at hc
    subst hc
    obtain ⟨u, hu, ht⟩ := State.exists_of_scan_append hscan
    have hu : u.mode = .escaped 0x60 := State.mode_of_scan_inName (by rw [hmode]; decide) hu
    rw [State.mode_of_backtick ht, hu]
    simp [Mode.afterBacktick]
  | case3 c hc d cs ih =>
    rw [beq_iff_eq] at hc
    subst hc
    rw [nameBytes_cons, List.append_assoc] at hscan
    obtain ⟨u, hfirst, hbehind⟩ := State.exists_of_scan_append hscan
    have hu : u.mode = .escaped 0x60 :=
      State.mode_of_scan_inName (by rw [hmode]; exact foldlM_backslash) hfirst
    rw [nameBytes_cons, List.append_assoc] at hbehind
    obtain ⟨v, hsecond, hlast⟩ := State.exists_of_scan_append hbehind
    by_cases hd : d = '\x60'
    · -- The first of the two backticks is taken away, and the second closes the stretch.
      subst hd
      have hv : v.mode = .code := State.mode_of_scan_inName (by rw [hu]; decide) hsecond
      obtain ⟨w, hrest, hclose⟩ := State.exists_of_scan_append hlast
      rw [State.mode_of_backtick hclose]
      refine ne_code_afterBacktick (staysOutside_nameBytes cs v w [] ?_ hrest)
      simp [hv, Mode.IsOutside]
    · rw [Sql.nameChar_of_ne hd, List.flatMap_singleton] at hsecond
      have hv : v.mode = .quoted 0x60 := State.mode_of_scan_inName
        (by rw [hu]; exact foldlM_escaped d) hsecond
      exact ih (by simpa [hd] using h) hv hlast
  | case4 c cs hc ih =>
    rw [nameBytes_cons, List.append_assoc] at hscan
    obtain ⟨u, hu, hscan⟩ := State.exists_of_scan_append hscan
    have hu : u.mode = .quoted 0x60 := State.mode_of_scan_inName
      (by rw [hmode]; exact foldlM_nameChar (by simpa using hc)) hu
    exact ih h hu hscan

/-- A scanner reads a name in backticks from code to code, with all of its bytes kept, exactly if
the name is quotable. -/
theorem scan_quoteName_iff {name : String} (hcode : s.mode = .code)
    (hroom : s.size + (encode (Sql.quoteName name)).length ≤ limit) :
    s.scan limit (encode (Sql.quoteName name)) =
      (s.holding (encode (Sql.quoteName name)) .code, [], none) ↔ IsQuotable name := by
  constructor
  · intro hscan
    by_contra hnot
    rw [IsQuotable, Bool.not_eq_false] at hnot
    rw [encode_quoteName, ← List.singleton_append] at hscan
    obtain ⟨u, hu, hrest⟩ := State.exists_of_scan_append hscan
    have hu : u.mode = .quoted 0x60 := State.mode_of_scan_inName (by rw [hcode]; decide) hu
    exact ne_code_of_escapesBacktick hnot hu hrest rfl
  · intro h
    exact State.scan_inName (by rw [hcode]; exact foldlM_quoteName h) (.inl hcode) hroom

/-- Nowhere within a name in backticks does a scanner end a statement, stand in a comment or lose a
byte. It stands in code between two backticks only. -/
theorem scan_front_of_quoteName {name : String} (h : IsQuotable name) (hcode : s.mode = .code)
    (hroom : s.size + (encode (Sql.quoteName name)).length ≤ limit) {front back : List UInt8}
    (hsplit : front ++ back = encode (Sql.quoteName name)) :
    ∃ mode, s.scan limit front = (s.holding front mode, [], none) ∧
      (mode = .quoted 0x60 ∨ mode = .escaped 0x60 ∨
        mode = .code ∧ (front = [] ∨ back = [] ∨ back.head? = some 0x60)) := by
  have hread := foldlM_quoteName h
  rw [← hsplit, List.foldlM_append] at hread
  obtain ⟨mode, hfront, hback⟩ := Option.bind_eq_some_iff.mp hread
  have hfits : s.size + front.length ≤ limit := by
    have hlength := congrArg List.length hsplit
    rw [List.length_append] at hlength
    omega
  refine ⟨mode, State.scan_inName (by rw [hcode]; exact hfront) (.inl hcode) hfits, ?_⟩
  rcases Mode.isInName_of_foldlM hfront (.inl rfl) with rfl | rfl | rfl
  · cases back with
    | nil => exact .inr (.inr ⟨rfl, .inr (.inl rfl)⟩)
    | cons b back =>
      obtain ⟨next, hnext, -⟩ := Option.bind_eq_some_iff.mp hback
      simp only [Mode.inName?, Option.ite_none_right_eq_some, beq_iff_eq] at hnext
      exact .inr (.inr ⟨rfl, .inr (.inr (by rw [hnext.1, List.head?_cons]))⟩)
  · exact .inl rfl
  · exact .inr (.inl rfl)

end Dump

end SqlBackup
