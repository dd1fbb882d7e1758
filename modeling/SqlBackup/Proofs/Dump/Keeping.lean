import SqlBackup.Proofs.Dump.Closed
import SqlBackup.Proofs.Scan.Lines

/-!
# Bytes that become text

As long as nothing but text is read, a scanner holds all bytes read so far, and where it stands can
be told from them. So a closed text is gathered from code to code with every byte kept, by a scanner
and by all that read from it, and a statement made of it ends at the semicolon behind it.
-/
namespace SqlBackup

namespace Scan

/-- The modes of a scanner that stands in no comment. -/
def Mode.InText : Mode → Prop
  | .lineComment => False
  | .blockComment _ => False
  | _ => True

namespace State

open Dump Text Text.Utf8

/-- The state that has these bytes as text as well, and reads on in this mode. -/
def holding (s : State) (bytes : List UInt8) (mode : Mode) : State :=
  { s with
    mode
    begun := s.begun || !bytes.isEmpty
    pending := bytes.reverse ++ s.pending
    size := s.size + bytes.length
    position := s.position + bytes.length }

variable {limit : Nat} {s : State} {b q : UInt8} {bytes : List UInt8} {mode : Mode}

theorem holding_nil (s : State) : s.holding [] s.mode = s := by simp [holding]

theorem holding_cons (s : State) (b : UInt8) (bytes : List UInt8) (mode mode' : Mode) :
    (s.holding [b] mode).holding bytes mode' = s.holding (b :: bytes) mode' := by
  simp [holding, Nat.add_comm 1, Nat.add_assoc]

theorem begun_holding (s : State) (b : UInt8) (mode : Mode) : (s.holding [b] mode).begun = true :=
  Bool.or_true _

/-- There is room for a byte and those behind it. -/
theorem room_holding (mode : Mode) (h : s.size + (b :: bytes).length ≤ limit) :
    s.size + 1 ≤ limit ∧ (s.holding [b] mode).size + bytes.length ≤ limit := by
  rw [List.length_cons] at h
  simp only [holding, List.length_singleton]
  omega

/-! ### One byte -/

/-- A byte of text with room for it is held. -/
theorem step_of_add (heffect : s.effect b = (.add b, mode)) (hroom : s.size + 1 ≤ limit) :
    s.step limit b = (s.holding [b] mode, if s.completes b then .boundary else .more) := by
  have hmoved : s.moved b = s.holding [b] mode := by
    rw [moved, turned_of_effect heffect]
    simp [Effect.on, holding]
  rw [step_of_fits (Effect.exceeds_of_room hroom _), hmoved]

/-- Where a quoted stretch starts, goes on or ends, nothing else does. -/
theorem step_of_add_quoted (heffect : s.effect b = (.add b, mode))
    (hmode : s.mode ≠ .code ∨ mode ≠ .code) (hroom : s.size + 1 ≤ limit) :
    s.step limit b = (s.holding [b] mode, .more) := by
  have hcompletes : s.completes b = false :=
    completes_of_ne (by rwa [turned_of_effect heffect])
  rw [step_of_add heffect hroom, hcompletes]
  rfl

/-- A quote in code opens a stretch, whatever the delimiter. -/
theorem step_quote (hcode : s.mode = .code) (hb : isQuote b = true) (hroom : s.size + 1 ≤ limit) :
    s.step limit b = (s.holding [b] (.quoted b), .more) := by
  have hkept : isAsciiBlank b = false := by
    simp only [isQuote, Bool.or_eq_true, beq_iff_eq] at hb
    rcases hb with (rfl | rfl) | rfl <;> decide
  rw [isQuote] at hb
  have heffect : s.effect b = (.add b, .quoted b) := by
    simp only [effect, hcode, hb, addition_of_kept (.inr hkept), ↓reduceIte]
  exact step_of_add_quoted heffect (.inr (by simp)) hroom

theorem step_quoted (hmode : s.mode = .quoted q) (hbegun : s.begun = true)
    (hroom : s.size + 1 ≤ limit) : s.step limit b =
      (s.holding [b] (if b == 0x5C then .escaped q else if b == q then .code else .quoted q),
        .more) := by
  have heffect : s.effect b =
      (.add b, if b == 0x5C then .escaped q else if b == q then .code else .quoted q) := by
    simp only [effect, hmode, addition_of_kept (.inl hbegun)]
  exact step_of_add_quoted heffect (.inl (by simp [hmode])) hroom

theorem step_escaped (hmode : s.mode = .escaped q) (hbegun : s.begun = true)
    (hroom : s.size + 1 ≤ limit) : s.step limit b = (s.holding [b] (.quoted q), .more) := by
  have heffect : s.effect b = (.add b, .quoted q) := by
    simp only [effect, hmode, addition_of_kept (.inl hbegun)]
  exact step_of_add_quoted heffect (.inr (by simp)) hroom

/-- A byte of code that opens neither a stretch nor a comment is text. Only a semicolon ends the
statement. -/
theorem step_plain (hcode : s.mode = .code) (hdelimiter : s.delimiter = semicolon)
    (hkept : s.begun = true ∨ isAsciiBlank b = false) (hquote : isQuote b = false)
    (hhash : (b == 0x23) = false) (hdash : (b == 0x2D && s.pending.head? == some 0x2D) = false)
    (hstar : (b == 0x2A && s.pending.head? == some 0x2F) = false) (hroom : s.size + 1 ≤ limit) :
    s.step limit b = (s.holding [b] .code, if b == 0x3B then .boundary else .more) := by
  rw [isQuote] at hquote
  have heffect : s.effect b = (.add b, .code) := by
    simp only [effect, hcode, hquote, hhash, hdash, hstar, addition_of_kept hkept,
      Bool.false_eq_true, ↓reduceIte]
  have hcompletes : s.completes b = (b == 0x3B) := by
    simp [completes, turned_of_effect heffect, Effect.on, hcode, atDelimiter, hdelimiter, semicolon,
      Delimiter.ends, List.isPrefixOf, Bool.beq_comm (a := b)]
  rw [step_of_add heffect hroom, hcompletes]

/-! ### Many bytes -/

theorem scan_cons {t : State} (h : s.step limit b = (t, .more)) (bytes : List UInt8) :
    s.scan limit (b :: bytes) = t.scan limit bytes := by
  rw [scan, h]

/-- A scan that shows nothing of some bytes goes on behind the first of them. -/
theorem exists_of_scan_append {front back rest : List UInt8} {t : State}
    (h : s.scan limit (front ++ back) = (t, rest, none)) :
    ∃ u, s.scan limit front = (u, [], none) ∧ u.scan limit back = (t, rest, none) := by
  induction front generalizing s with
  | nil => exact ⟨s, rfl, h⟩
  | cons b front ih =>
    simp only [scan, List.cons_append] at h ⊢
    split at h
    · exact ih h
    · cases h
    · split at h
      · exact ih h
      · cases h
      · cases h

/-- No comment opens with the last byte of the text and the first of these. -/
def ApartFrom (s : State) (bytes : List UInt8) : Prop :=
  ∀ b, bytes.head? = some b → (b == 0x2D && s.pending.head? == some 0x2D) = false ∧
    (b == 0x2A && s.pending.head? == some 0x2F) = false

theorem apartFrom_holding {mode : Mode} {bytes : List UInt8}
    (h : (b == 0x2D && bytes.head? == some 0x2D) = false ∧
      (b == 0x2F && bytes.head? == some 0x2A) = false) :
    (s.holding [b] mode).ApartFrom bytes := by
  intro c hc
  have hhead : (s.holding [b] mode).pending.head? = some b := rfl
  rw [hc] at h
  simp only [hhead, Bool.and_eq_false_iff, beq_eq_false_iff_ne, ne_eq, Option.some_inj] at h ⊢
  exact ⟨h.1.symm, h.2.symm⟩

/-! ### Text of any size -/

/-- Where there is room for a byte, the limit does not matter. -/
theorem step_eq_of_room {limit' : Nat} (h : s.size + 1 ≤ limit) (h' : s.size + 1 ≤ limit') :
    s.step limit b = s.step limit' b := by
  rw [step_of_fits (Effect.exceeds_of_room h _), step_of_fits (Effect.exceeds_of_room h' _)]

/-- A byte that becomes text where there is room for it is too much where there is none. -/
theorem step_of_full {limit' : Nat} {t : State} (h : s.step limit' b = (t, .more))
    (hsize : t.size = s.size + 1) (hfull : limit < s.size + 1) :
    (s.step limit b).2 = .tooLarge := by
  have hmoved : t = s.moved b := by
    rw [step_eq] at h
    split at h
    · cases (Prod.mk.inj h).2
    · exact (Prod.mk.inj h).1.symm
  rw [hmoved, moved, turned] at hsize
  have hexceeds : (s.effect b).1.exceeds limit s.size = true := by
    cases heffect : (s.effect b).1 with
    | none => simp [heffect, Effect.on] at hsize
    | add c => simpa [Effect.exceeds] using hfull
    | takeBack =>
      simp only [heffect, Effect.on, unpush] at hsize
      omega
  rw [step_of_exceeds hexceeds]

/-- Whatever the limit, these bytes become text one by one, and lead to this mode by way of modes
that are of no comment. -/
inductive Gathers : State → List UInt8 → Mode → Prop
  | nil (s : State) : Gathers s [] s.mode
  | cons {s : State} {b : UInt8} {bytes : List UInt8} {mode mode' : Mode}
      (hstep : s.step (s.size + 1) b = (s.holding [b] mode, .more)) (hmode : mode.InText)
      (hrest : Gathers (s.holding [b] mode) bytes mode') : Gathers s (b :: bytes) mode'

variable {mode : Mode}

theorem Gathers.step_of_room {s : State}
    (h : s.step (s.size + 1) b = (s.holding [b] mode, .more)) (hroom : s.size + 1 ≤ limit) :
    s.step limit b = (s.holding [b] mode, .more) :=
  (step_eq_of_room hroom le_rfl).trans h

/-- Bytes with room for them are held behind those that were held. -/
theorem Gathers.scan (h : s.Gathers bytes mode) (hroom : s.size + bytes.length ≤ limit)
    (rest : List UInt8) :
    s.scan limit (bytes ++ rest) = (s.holding bytes mode).scan limit rest := by
  induction h with
  | nil s => rw [List.nil_append, holding_nil]
  | @cons s b bytes mode _ hstep _ _ ih =>
    have hfirst := room_holding mode hroom
    rw [List.cons_append, scan_cons (step_of_room hstep hfirst.1), ih hfirst.2, holding_cons]

/-- Bytes that are gathered are gathered in two parts as well. -/
theorem Gathers.split {front back : List UInt8} (h : s.Gathers (front ++ back) mode) :
    ∃ mode', s.Gathers front mode' ∧ (s.holding front mode').Gathers back mode := by
  induction front generalizing s with
  | nil => exact ⟨s.mode, .nil s, by rwa [holding_nil]⟩
  | cons b front ih =>
    cases h with
    | cons hstep hmode hrest =>
      obtain ⟨mode', hfront, hback⟩ := ih hrest
      exact ⟨mode', .cons hstep hmode hfront, by rwa [holding_cons] at hback⟩

theorem Gathers.inText (h : s.Gathers bytes mode) (hmode : s.mode.InText) : mode.InText := by
  induction h with
  | nil => exact hmode
  | cons _ hnext _ ih => exact ih hnext

/-- Bytes without room for them are too much just behind the limit. -/
theorem Gathers.scan_full (h : s.Gathers bytes mode) (hsize : s.size ≤ limit)
    (hfull : limit < s.size + bytes.length) (rest : List UInt8) :
    ∃ t behind, s.scan limit (bytes ++ rest) = (t, behind,
      some (.error (.statementTooLarge limit (s.position + (limit - s.size) + 1)))) := by
  induction h with
  | nil s =>
    rw [List.length_nil] at hfull
    omega
  | @cons s b bytes _ _ hstep _ _ ih =>
    rcases Nat.lt_or_ge limit (s.size + 1) with hlt | hroom
    · rcases hfirst : s.step limit b with ⟨t, signal⟩
      have hsignal := step_of_full hstep rfl hlt
      rw [hfirst] at hsignal
      obtain rfl : signal = .tooLarge := hsignal
      have hposition := (step_frame hfirst).2.1
      refine ⟨t, bytes ++ rest, ?_⟩
      have hzero : limit - s.size = 0 := by omega
      simp only [List.cons_append, State.scan, hfirst, hposition, hzero, Nat.add_zero]
    · obtain ⟨t, behind, hscan⟩ := ih hroom (by
        rw [List.length_cons] at hfull
        simp only [holding, List.length_singleton]
        omega)
      refine ⟨t, behind, ?_⟩
      rw [List.cons_append, scan_cons (step_of_room hstep hroom), hscan]
      simp only [holding, List.length_singleton]
      congr 5
      omega

/-- What a stream shows does not change when a reader has taken in the bytes in front, if they set
no delimiter. -/
theorem Gathers.transcript {settings : Settings} {lineStart : Bool} (h : s.Gathers bytes mode)
    (hroom : s.size + bytes.length ≤ settings.limit) {rest : List UInt8}
    (hdirective : s.directiveAt? settings lineStart (bytes ++ rest) = none) :
    s.transcript settings lineStart (bytes ++ rest) = (s.holding bytes mode).transcript settings
      (bytes.getLast?.elim lineStart (· == 0x0A)) rest := by
  induction h generalizing lineStart with
  | nil s => rw [List.nil_append, holding_nil, List.getLast?_nil, Option.elim_none]
  | @cons s b bytes mode mode' hstep _ hrest ih =>
    have hfirst := room_holding mode hroom
    have hbegun : (s.holding [b] mode).directiveAt? settings (b == 0x0A) (bytes ++ rest) = none := by
      simp [directiveAt?, begun_holding]
    rw [List.cons_append] at hdirective ⊢
    rw [transcript_cons hdirective, step_of_room hstep hfirst.1]
    refine (ih hfirst.2 hbegun).trans ?_
    rw [holding_cons]
    congr 1
    rw [List.getLast?_cons, Option.elim_some]
    cases bytes.getLast? <;> rfl

/-! ### A closed text -/

/-- A closed text is gathered from code to code. -/
theorem gathers_of_closes {quote : Option UInt8} {text : List UInt8}
    (hcloses : closes quote text = true) (hmode : s.mode = modeOf quote)
    (hquote : ∀ q, quote = some q → isQuote q = true) (hdelimiter : s.delimiter = semicolon)
    (hkept : s.begun = true ∨ quote = none ∧ ∀ b, text.head? = some b → isAsciiBlank b = false)
    (hapart : quote = none → s.ApartFrom text) : s.Gathers text .code := by
  have hopen {q : UInt8} : some q ≠ none := by simp
  fun_induction closes quote text generalizing s with
  | case1 =>
    rw [← show s.mode = .code from hmode]
    exact .nil s
  | case2 => cases hcloses
  | case3 => cases hcloses
  | case4 q b hb c text ih =>
    have hescape := step_quoted (b := b) hmode (hkept.resolve_right fun hno => hopen hno.1) le_rfl
    rw [if_pos hb] at hescape
    have hescaped := step_escaped (s := s.holding [b] (.escaped q)) (b := c) rfl
      (begun_holding _ _ _) le_rfl
    exact .cons hescape trivial (.cons hescaped trivial (ih hcloses rfl hquote hdelimiter
      (.inl (begun_holding _ _ _)) fun hno => (hopen hno).elim))
  | case5 q b text hb ih =>
    obtain ⟨next, hnext, hcases⟩ : ∃ next, (if b == q then none else some q) = next ∧
        (next = none ∧ isQuote b = true ∨ next = some q) := by
      by_cases hbq : (b == q) = true
      · exact ⟨none, if_pos hbq, .inl ⟨rfl, eq_of_beq hbq ▸ hquote q rfl⟩⟩
      · exact ⟨some q, if_neg hbq, .inr rfl⟩
    have hmodeOf : (if b == q then .code else .quoted q) = modeOf next := by
      rw [← hnext]
      split <;> rfl
    have hstep := step_quoted (b := b) hmode (hkept.resolve_right fun hno => hopen hno.1) le_rfl
    rw [if_neg hb, hmodeOf] at hstep
    -- A quote is neither a dash nor a slash, so behind the stretch no comment opens with it.
    have hapart : next = none → (s.holding [b] (modeOf next)).ApartFrom text := by
      intro hnone
      have hne := ne_opening_of_isQuote (hcases.resolve_right (by simp [hnone])).2
      exact apartFrom_holding ⟨by simp [hne.1], by simp [hne.2]⟩
    have hquote : ∀ c, next = some c → isQuote c = true := by
      rcases hcases with ⟨rfl, -⟩ | rfl
      · simp
      · exact hquote
    rw [hnext] at hcloses ih
    exact .cons hstep (by cases next <;> trivial)
      (ih hcloses rfl hquote hdelimiter (.inl (begun_holding _ _ _)) hapart)
  | case6 b text hb ih =>
    exact .cons (step_quote hmode hb le_rfl) trivial (ih hcloses rfl (by simpa using hb) hdelimiter
      (.inl (begun_holding _ _ _)) fun hno => (hopen hno).elim)
  | case7 b text hb ih =>
    rw [Bool.and_eq_true, Bool.and_eq_true, bne_iff_ne, Bool.not_eq_true', opensComment,
      Bool.or_eq_false_iff, Bool.or_eq_false_iff] at hcloses
    obtain ⟨⟨hsemicolon, ⟨hhash, hdash⟩, hstar⟩, hcloses⟩ := hcloses
    have hstep := step_plain hmode hdelimiter (hkept.imp_right fun h => h.2 b rfl)
      (by simpa using hb) hhash (hapart rfl b rfl).1 (hapart rfl b rfl).2 le_rfl
    rw [if_neg (by simpa using hsemicolon)] at hstep
    exact .cons hstep trivial (ih hcloses rfl hquote hdelimiter (.inl (begun_holding _ _ _))
      fun _ => apartFrom_holding ⟨hdash, hstar⟩)

/-! ### A statement -/

/-- A text that starts with no blank is not blank. -/
theorem trim_ne_empty {sql : String} {c : Char} {cs : List Char} (hsql : sql.toList = c :: cs)
    (hc : isBlank c = false) : (trim sql).isEmpty = false := by
  have hstart : trimStartChars sql.toList = c :: cs := by
    rw [hsql, trimStartChars, List.dropWhile_cons_of_neg (by simp [hc])]
  rw [Bool.eq_false_iff, ne_eq, String.isEmpty_iff, ← String.toList_inj, toList_trim, trimChars,
    hstart, trimEndChars, String.toList_empty, List.reverse_eq_nil_iff, List.dropWhile_eq_nil_iff]
  intro hall
  rw [hall c (List.mem_reverse.mpr List.mem_cons_self)] at hc
  cases hc

/-- A closed statement ends at the semicolon behind it, and what follows is left. -/
theorem scan_statement {sql : String} {c : Char} {cs : List Char} (hclosed : Dump.Closed sql)
    (hsql : sql.toList = c :: cs) (hc : isBlank c = false) (hroom : (encode sql).length < limit)
    (position start : Nat) (rest : List UInt8) :
    (free semicolon position start).scan limit (encode sql ++ 0x3B :: rest) =
      (initial (position + (encode sql).length + 1) semicolon, rest,
        some (.ok ⟨trim sql, position + (encode sql).length + 1 - start,
          position + (encode sql).length + 1⟩)) := by
  obtain ⟨b, tail, hb, hblank, -⟩ := isAsciiBlank_head_encodeChar c
  have hbytes : encode sql = b :: (tail ++ encode (String.ofList cs)) := by
    rw [← String.ofList_toList (s := sql), hsql, encode_cons, hb, List.cons_append]
  have hfirst : ∀ b', (encode sql).head? = some b' → isAsciiBlank b' = false := by
    intro b' hb'
    rw [hbytes, List.head?_cons, Option.some_inj] at hb'
    rw [← hb', hblank, Bool.eq_false_iff]
    intro hascii
    rw [isBlank_of_isAsciiBlankChar hascii] at hc
    cases hc
  have hcloses : closes none (encode sql) = true := hclosed
  have hgathers := gathers_of_closes (s := free semicolon position start) hcloses rfl
    (by simp) rfl (.inr ⟨rfl, hfirst⟩) fun _ _ _ => by simp [free]
  have hread := hgathers.scan (by simpa [free] using hroom.le) (0x3B :: rest)
  have hbegun : ((free semicolon position start).holding (encode sql) .code).begun = true := by
    simp [holding, hbytes]
  have hfits : ((free semicolon position start).holding (encode sql) .code).size + 1 ≤ limit := by
    simpa [holding, free] using hroom
  have hend := step_plain (b := 0x3B) rfl rfl (.inl hbegun) rfl rfl rfl rfl hfits
  have htake : (((free semicolon position start).holding (encode sql) .code).holding [0x3B]
      .code).take true = (initial (position + (encode sql).length + 1) semicolon,
        .ok (some ⟨trim sql, position + (encode sql).length + 1 - start,
          position + (encode sql).length + 1⟩)) := by
    simp [take, holding, free, semicolon, trim_ne_empty hsql hc, cleared, initial]
  rw [hread, scan, hend]
  simp only [beq_self_eq_true, ↓reduceIte, htake]

end State

end Scan

end SqlBackup
