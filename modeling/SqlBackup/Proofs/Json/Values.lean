import Mathlib
import SqlBackup.Json.Record
import SqlBackup.Json.Writing
import SqlBackup.Proofs.Number.Digits

/-!
# Written values read back

What is written of a value is read back, whatever follows on the same or on the next line. Every
character of a text comes back from its escape, and the digits of a count spell the count.
-/
namespace SqlBackup.Json

variable {α : Type} {item : Reader α} {written : String} {a : α}

theorem skipBlanks_skipBlanks (cs : List Char) : skipBlanks (skipBlanks cs) = skipBlanks cs :=
  List.dropWhile_idempotent isBlank cs

/-- A text is over, or it goes on behind the value that it starts with. -/
def Ends (rest : List Char) : Prop := ∀ c ∈ rest.head?, c = ',' ∨ c = '\n'

theorem ends_nil : Ends [] := by simp [Ends]

theorem ends_comma (rest : List Char) : Ends (',' :: rest) := by simp [Ends]

theorem ends_line (rest : List Char) : Ends ('\n' :: rest) := by simp [Ends]

/-- The reader takes the value from its text, whatever follows. -/
structure Reads (item : Reader α) (written : String) (a : α) : Prop where
  /-- The text starts with a character that starts a value. -/
  opens : ∃ c cs, written.toList = c :: cs ∧ isBlank c = false ∧ c ≠ ']'
  reads : ∀ cs rest, skipBlanks cs = written.toList ++ rest → Ends rest → item cs = .ok (a, rest)

/-! ### Texts -/

theorem hexValue?_hexDigit : ∀ n < 16, hexValue? (hexDigit n) = some n := by decide

/-- A character comes back from its escape. -/
theorem textStep_escapedChar (c : Char) (rest : List Char) :
    textStep (escapedChar c ++ rest) = .ok (some c, rest) := by
  simp only [escapedChar]
  split_ifs with hquote hslash hback hfeed hline hreturn htab hcontrol
  · obtain rfl := beq_iff_eq.mp hquote
    rfl
  · obtain rfl := beq_iff_eq.mp hslash
    rfl
  · obtain rfl := beq_iff_eq.mp hback
    rfl
  · obtain rfl := beq_iff_eq.mp hfeed
    rfl
  · obtain rfl := beq_iff_eq.mp hline
    rfl
  · obtain rfl := beq_iff_eq.mp hreturn
    rfl
  · obtain rfl := beq_iff_eq.mp htab
    rfl
  · have hunit : unit ('0' :: '0' :: hexDigit (c.toNat / 16) :: hexDigit (c.toNat % 16) :: rest) =
        .ok (c.toNat, rest) := by
      have hzero : hexValue? '0' = some 0 := rfl
      simp only [unit, hzero, hexValue?_hexDigit (c.toNat / 16) (by omega),
        hexValue?_hexDigit (c.toNat % 16) (by omega)]
      congr 2
      omega
    have hnumbered : numbered ('0' :: '0' :: hexDigit (c.toNat / 16) ::
        hexDigit (c.toNat % 16) :: rest) = .ok (c, rest) := by
      rw [numbered, hunit]
      show (if _ then _ else if _ then _ else _) = _
      rw [if_neg (by omega), if_neg (by omega), Char.ofNat_toNat]
    show (numbered _ >>= fun p => _) = _
    rw [List.append_eq]
    exact congrArg (· >>= _) hnumbered
  · rw [List.singleton_append, textStep.eq_def]
    split <;> simp_all

theorem textBody_escaped (cs rest : List Char) {fuel : Nat} (h : cs.length < fuel) :
    textBody fuel (cs.flatMap escapedChar ++ '"' :: rest) = .ok (cs, rest) := by
  induction cs generalizing fuel with
  | nil =>
    cases fuel with
    | zero => simp at h
    | succ fuel => rfl
  | cons c cs ih =>
    cases fuel with
    | zero => simp at h
    | succ fuel =>
      rw [List.flatMap_cons, List.append_assoc, textBody, textStep_escapedChar]
      show (textBody fuel _ >>= fun p => _) = _
      rw [ih (by simpa using h)]
      rfl

theorem length_le_length_escaped (cs : List Char) :
    cs.length ≤ (cs.flatMap escapedChar).length := by
  induction cs with
  | nil => rfl
  | cons c cs ih =>
    have hone : 1 ≤ (escapedChar c).length := by
      rw [escapedChar]
      split_ifs <;> simp
    rw [List.flatMap_cons, List.length_append, List.length_cons]
    omega

theorem toList_quoted (s : String) :
    (quoted s).toList = '"' :: (s.toList.flatMap escapedChar ++ ['"']) := by
  rw [quoted, String.toList_ofList, List.cons_append]

/-- A text comes back from behind its first quotation mark. -/
theorem textTail_quoted (s : String) (rest : List Char) :
    textTail (s.toList.flatMap escapedChar ++ '"' :: rest) = .ok (s, rest) := by
  have hfuel := length_le_length_escaped s.toList
  rw [textTail, textBody_escaped _ _ (by rw [List.length_append]; omega)]
  show Except.ok (String.ofList s.toList, rest) = _
  rw [String.ofList_toList]

theorem reads_text (s : String) : Reads text (quoted s) s := by
  refine ⟨⟨'"', _, toList_quoted s, rfl, by decide⟩, fun cs rest hcs hrest => ?_⟩
  rw [toList_quoted, List.cons_append, List.append_assoc, List.singleton_append] at hcs
  simp only [text, hcs]
  exact textTail_quoted s rest

theorem Reads.optional (h : Reads item written a) (hnull : written.toList.head? ≠ some 'n') :
    Reads (Json.optional item) written (some a) := by
  refine ⟨h.opens, fun cs rest hcs hrest => ?_⟩
  have hitem := h.reads (skipBlanks cs) rest ((skipBlanks_skipBlanks cs).trans hcs) hrest
  rw [Json.optional]
  split
  · next more hmore =>
    obtain ⟨c, tail, hopens, -, -⟩ := h.opens
    rw [hmore, hopens] at hcs
    rw [hopens] at hnull
    obtain ⟨rfl, -⟩ := List.cons.inj hcs
    simp at hnull
  · rw [hitem]
    rfl

theorem reads_textWith {meaning : String → Option α} {s : String} (h : meaning s = some a) :
    Reads (textWith meaning) (quoted s) a := by
  refine ⟨(reads_text s).opens, fun cs rest hcs hrest => ?_⟩
  simp only [textWith, (reads_text s).reads cs rest hcs hrest, bind, Except.bind, h]

theorem reads_name {meaning : String → Option α} {s : String} (h : meaning s = some a) :
    Reads (name meaning) (quoted s) a := by
  refine ⟨(reads_text s).opens, fun cs rest hcs hrest => ?_⟩
  have hquoted := hcs
  rw [toList_quoted, List.cons_append, List.append_assoc, List.singleton_append] at hquoted
  simp only [name, hquoted]
  refine (reads_textWith h).reads _ rest ?_ hrest
  rw [← hquoted, skipBlanks_skipBlanks, hcs]

/-! ### Counts -/

theorem decimal_eq (ds : List Char) : decimal ds = Nat.ofDigitChars 10 ds 0 := by
  rw [decimal, Nat.ofDigitChars_eq_foldl]
  congr 1
  funext n c
  rw [Nat.mul_comm]
  rfl

theorem isDigit_toDigits {n : Nat} {c : Char} (hc : c ∈ Nat.toDigits 10 n) : c.isDigit = true :=
  Nat.isDigit_of_mem_toDigits (by decide) (by decide) hc

/-- No zero stands before other digits. -/
theorem head?_toDigits {n : Nat} (h : 10 ≤ n) : (Nat.toDigits 10 n).head? ≠ some '0' := by
  induction n using Nat.strongRecOn with
  | ind n ih =>
    rw [Nat.toDigits_of_base_le (by decide) h, List.head?_append_of_ne_nil _ Nat.toDigits_ne_nil]
    by_cases hmore : 10 ≤ n / 10
    · exact ih (n / 10) (by omega) hmore
    · rw [Nat.toDigits_of_lt_base (by omega)]
      simp only [List.head?_cons, ne_eq, Option.some.injEq, Nat.digitChar_eq_zero]
      omega

theorem Ends.head_not_digit {rest : List Char} (h : Ends rest) :
    digits rest = ([], rest) := by
  cases rest with
  | nil => rfl
  | cons c rest =>
    rcases h c (by simp) with rfl | rfl <;> rfl

theorem digits_append {ds rest : List Char} (h : ∀ c ∈ ds, c.isDigit = true) (hrest : Ends rest) :
    digits (ds ++ rest) = (ds, rest) := by
  obtain ⟨htake, hdrop⟩ := Prod.mk.inj hrest.head_not_digit
  rw [digits, List.takeWhile_append_of_pos h, List.dropWhile_append_of_pos h, htake, hdrop,
    List.append_nil]

theorem wholeDigits_toDigits (n : Nat) {rest : List Char} (hrest : Ends rest) :
    wholeDigits (Nat.toDigits 10 n ++ rest) = .ok (Nat.toDigits 10 n, rest) := by
  have hsome : someDigits (Nat.toDigits 10 n ++ rest) = .ok (Nat.toDigits 10 n, rest) := by
    rw [someDigits, digits_append (fun c hc => isDigit_toDigits hc) hrest]
    split
    · next h => exact absurd (Prod.mk.inj h).1 Nat.toDigits_ne_nil
    · next h => exact absurd (Prod.mk.inj h).1 Nat.toDigits_ne_nil
    · next ds more _ h =>
      obtain ⟨rfl, rfl⟩ := Prod.mk.inj h
      rfl
  simp only [wholeDigits, hsome, bind, Except.bind]
  split
  · next more hzero =>
    by_cases hn : 10 ≤ n
    · exact absurd (by rw [hzero]; rfl) (head?_toDigits hn)
    · rw [Nat.toDigits_of_lt_base (by omega)] at hzero
      simp at hzero
  · rfl

theorem numberParts_toDigits (n : Nat) {rest : List Char} (hrest : Ends rest) :
    numberParts (Nat.toDigits 10 n ++ rest) = .ok (⟨Nat.toDigits 10 n, none, none⟩, rest) := by
  rw [numberParts, wholeDigits_toDigits n hrest]
  cases rest with
  | nil => rfl
  | cons c rest =>
    rcases hrest c (by simp) with rfl | rfl <;> rfl

theorem isTooLarge_toDigits {n : Nat} (h : n < Nat.pow 2 64) :
    (Parts.mk (Nat.toDigits 10 n) none none).isTooLarge = false := by
  have hlength : (Nat.toDigits 10 n).length ≤ 20 :=
    Nat.toDigits_length 10 n 20 (by decide) (h.trans (by decide))
  have hdrop := (List.dropWhile_sublist (· == '0') (l := Nat.toDigits 10 n)).length_le
  simp only [Parts.isTooLarge, Parts.significant, Parts.scale, Option.getD_none, List.append_nil,
    List.length_nil]
  rw [if_pos]
  simp only [Bool.or_eq_true, decide_eq_true_eq]
  right
  push_cast
  omega

/-- The digits of a count have no sign. -/
theorem toDigits_append_ne_minus (n : Nat) (rest more : List Char) :
    Nat.toDigits 10 n ++ rest ≠ '-' :: more := by
  intro heq
  obtain ⟨c, cs, hopens⟩ := List.exists_cons_of_ne_nil (Nat.toDigits_ne_nil (b := 10) (n := n))
  rw [hopens, List.cons_append] at heq
  obtain ⟨rfl, -⟩ := List.cons.inj heq
  have hdigit : '-'.isDigit = true := isDigit_toDigits (n := n) (by rw [hopens]; simp)
  cases hdigit

theorem number_toDigits {n : Nat} (h : n < Nat.pow 2 64) {rest : List Char} (hrest : Ends rest) :
    number (Nat.toDigits 10 n ++ rest) = .ok (.natural n, rest) := by
  have hvalue : (Parts.mk (Nat.toDigits 10 n) none none).number = .natural n := by
    simp only [Parts.number, decimal_eq, Nat.ofDigitChars_ten_toDigits, if_pos h]
  rw [number]
  split
  · next hsign => cases hsign
  · rw [numberParts_toDigits n hrest]
    show (if _ then _ else _) = _
    rw [isTooLarge_toDigits h, hvalue]
    rfl
  · exact toDigits_append_ne_minus n rest

theorem isBlank_of_isDigit {c : Char} (h : c.isDigit = true) : isBlank c = false := by
  cases hblank : isBlank c with
  | false => rfl
  | true =>
    simp only [isBlank, Bool.or_eq_true, beq_iff_eq] at hblank
    rcases hblank with ((rfl | rfl) | rfl) | rfl <;> cases h

theorem reads_natural {n : Nat} (h : n < Nat.pow 2 64) : Reads natural (toString n) n := by
  have hlist : (toString n).toList = Nat.toDigits 10 n := Nat.toList_repr
  obtain ⟨c, cs, hopens⟩ := List.exists_cons_of_ne_nil (Nat.toDigits_ne_nil (b := 10) (n := n))
  have hdigit : c.isDigit = true := isDigit_toDigits (n := n) (by rw [hopens]; simp)
  refine ⟨⟨c, cs, hlist.trans hopens, isBlank_of_isDigit hdigit, ?_⟩,
    fun text rest htext hrest => ?_⟩
  · rintro rfl
    cases hdigit
  · rw [natural, htext, hlist, hopens, List.cons_append]
    show (if _ then (number (c :: (cs ++ rest)) >>= fun p => _) else _) = _
    rw [if_pos (by simp [hdigit]), ← List.cons_append, ← hopens, number_toDigits h hrest]
    rfl

end SqlBackup.Json
