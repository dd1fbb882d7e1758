import Mathlib
import SqlBackup.Proofs.Json.Values

/-!
# Passing over written values

What a reader does not ask for is passed over. Whatever is written of a text or of a count is well
formed, so the reader comes out behind it, at whatever depth it stands.
-/
namespace SqlBackup.Json

/-- What is written in a frame, an element of an array or a member of an object, is passed over,
whatever is open around the frame. For each character no more than two steps are taken. -/
structure Passes (frame : Frame) (written : String) : Prop where
  opens : ∃ c cs, written.toList = c :: cs ∧ isBlank c = false ∧ c ≠ frame.close
  passes : ∃ steps ≤ 2 * written.toList.length, ∀ fuel frames cs rest,
    skipBlanks cs = written.toList ++ rest → Ends rest →
      (skipLead frame cs >>= skipOpen (fuel + steps) .value frames) =
        skipOpen fuel .further frames rest

variable {written : String}

/-- The value of a member that has no field is passed over. -/
theorem Passes.skipValue (h : Passes .array written) {cs rest : List Char}
    (hcs : skipBlanks cs = written.toList ++ rest) (hrest : Ends rest) :
    Json.skipValue cs = .ok rest := by
  obtain ⟨steps, hle, hpasses⟩ := h.passes
  have hlength : written.toList.length ≤ cs.length := by
    have hdropped := (List.dropWhile_sublist isBlank (l := cs)).length_le
    have htotal := congrArg List.length hcs
    rw [List.length_append] at htotal
    exact (Nat.le_add_right _ _).trans (htotal.symm.le.trans hdropped)
  have hfuel : 2 * cs.length + 2 = 2 * cs.length + 1 - steps + 1 + steps := by omega
  rw [Json.skipValue, hfuel]
  exact hpasses _ [] cs rest hcs hrest

/-! ### Texts -/

theorem skipText_escapedChar (c : Char) (rest : List Char) :
    skipText (escapedChar c ++ rest) = skipText rest := by
  simp only [escapedChar]
  split_ifs with hquote hslash hback hfeed hline hreturn htab hcontrol
  · rfl
  · rfl
  · rfl
  · rfl
  · rfl
  · rfl
  · rfl
  · have hall : ([('0' : Char), '0', hexDigit (c.toNat / 16), hexDigit (c.toNat % 16)].all
        fun x => (hexValue? x).isSome) = true := by
      have hzero : hexValue? '0' = some 0 := rfl
      simp only [List.all_cons, List.all_nil, hzero, hexValue?_hexDigit (c.toNat / 16) (by omega),
        hexValue?_hexDigit (c.toNat % 16) (by omega)]
      rfl
    exact if_pos hall
  · rw [List.singleton_append, skipText.eq_def]
    split <;> simp_all

theorem skipText_quoted (cs rest : List Char) :
    skipText (cs.flatMap escapedChar ++ '"' :: rest) = .ok rest := by
  induction cs with
  | nil => rfl
  | cons c cs ih => rw [List.flatMap_cons, List.append_assoc, skipText_escapedChar, ih]

theorem passes_quoted (s : String) : Passes .array (quoted s) := by
  refine ⟨⟨'"', _, toList_quoted s, rfl, by decide⟩, 1, ?_, fun fuel frames cs rest hcs _ => ?_⟩
  · rw [toList_quoted, List.length_cons]
    omega
  · rw [toList_quoted, List.cons_append, List.append_assoc, List.singleton_append] at hcs
    show skipOpen (fuel + 1) .value frames cs = _
    rw [skipOpen, hcs]
    show (skipText _ >>= skipOpen fuel .further frames) = _
    rw [skipText_quoted]
    rfl

/-! ### Counts -/

theorem passes_natural (n : Nat) : Passes .array (toString n) := by
  have hlist : (toString n).toList = Nat.toDigits 10 n := Nat.toList_repr
  obtain ⟨c, cs, hopens⟩ := List.exists_cons_of_ne_nil (Nat.toDigits_ne_nil (b := 10) (n := n))
  have hdigit : c.isDigit = true := isDigit_toDigits (n := n) (by rw [hopens]; simp)
  refine ⟨⟨c, cs, hlist.trans hopens, isBlank_of_isDigit hdigit, ?_⟩, 1, ?_,
    fun fuel frames text rest htext hrest => ?_⟩
  · rintro rfl
    cases hdigit
  · rw [hlist, hopens, List.length_cons]
    omega
  · have hskip : skipNumber (Nat.toDigits 10 n ++ rest) = .ok rest := by
      rw [skipNumber]
      split
      · next hparts =>
        rw [numberParts_toDigits n hrest] at hparts
        obtain ⟨-, rfl⟩ := Prod.mk.inj (Except.ok.inj hparts)
        rfl
      · next hparts =>
        rw [numberParts_toDigits n hrest] at hparts
        cases hparts
      · exact toDigits_append_ne_minus n rest
    rw [hopens, List.cons_append] at hskip
    rw [hlist, hopens, List.cons_append] at htext
    show skipOpen (fuel + 1) .value frames text = _
    rw [skipOpen, htext]
    split
    case h_1 heq => cases heq
    case h_2 | h_3 | h_4 | h_5 | h_6 | h_7 =>
      rename_i heq
      obtain ⟨rfl, -⟩ := List.cons.inj heq
      cases hdigit
    case h_8 heq =>
      obtain ⟨rfl, rfl⟩ := List.cons.inj heq
      rw [if_pos (by simp [hdigit]), hskip]
      rfl

end SqlBackup.Json
