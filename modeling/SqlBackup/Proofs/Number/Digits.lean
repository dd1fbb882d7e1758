import Mathlib
import SqlBackup.Calendar.Instant
import SqlBackup.Number.Binary64
import SqlBackup.Text.Hex

/-!
# What written numbers consist of

Numbers are written with digits, and with a point or a dash where they need one. A date and a time
add the marks between their parts.
-/
namespace SqlBackup.Number

/-- A text of digits only. -/
def IsDigits (s : String) : Prop := ∀ c ∈ s.toList, c.isDigit = true

theorem isDigits_toString (n : Nat) : IsDigits (toString n) := by
  intro c hc
  have hrepr : (toString n).toList = Nat.toDigits 10 n := Nat.toList_repr
  rw [hrepr] at hc
  exact Nat.isDigit_of_mem_toDigits (by decide) (by decide) hc

theorem toString_ne_empty (n : Nat) : toString n ≠ "" := by
  intro h
  have hrepr : (toString n).toList = Nat.toDigits 10 n := Nat.toList_repr
  rw [h] at hrepr
  exact Nat.toDigits_ne_nil hrepr.symm

theorem isDigits_padded (width n : Nat) : IsDigits (padded width n) := by
  intro c hc
  rw [padded, String.toList_ofList, List.mem_append] at hc
  rcases hc with hc | hc
  · obtain rfl := (List.mem_replicate.mp hc).2
    rfl
  · exact isDigits_toString n c hc

theorem toList_padded (width n : Nat) : (padded width n).toList =
    List.replicate (width - (Nat.toDigits 10 n).length) '0' ++ Nat.toDigits 10 n := by
  have hrepr : (toString n).toList = Nat.toDigits 10 n := Nat.toList_repr
  rw [padded, String.toList_ofList, hrepr]

theorem padded_ne_nil (width n : Nat) : (padded width n).toList ≠ [] := by
  rw [toList_padded]
  exact List.append_ne_nil_of_right_ne_nil _ Nat.toDigits_ne_nil

/-- A number that fits has exactly the wanted digits. -/
theorem length_padded_of_lt {w n : Nat} (h : n < 10 ^ w) (hw : 0 < w) :
    (padded w n).toList.length = w := by
  have hlength := (Nat.length_toDigits_le_iff (b := 10) (by decide) hw).mpr h
  rw [toList_padded, List.length_append, List.length_replicate]
  omega

/-- The digits spell the number. -/
theorem ofDigitChars_padded (width n : Nat) :
    Nat.ofDigitChars 10 (padded width n).toList 0 = n := by
  rw [toList_padded, Nat.ofDigitChars_append, Nat.ofDigitChars_replicate_zero, Nat.mul_zero,
    Nat.ofDigitChars_ten_toDigits]

/-- A text of digits and points, and not an empty one. -/
def IsPositional (s : String) : Prop :=
  s ≠ "" ∧ ∀ c ∈ s.toList, c.isDigit = true ∨ c = '.'

theorem isPositional_toString (n : Nat) : IsPositional (toString n) :=
  ⟨toString_ne_empty n, fun c hc => .inl (isDigits_toString n c hc)⟩

theorem isPositional_fixedTrimmed (count places : Nat) :
    IsPositional (fixedTrimmed count places) := by
  unfold fixedTrimmed
  dsimp only
  split
  · exact isPositional_toString _
  · constructor
    · simp
    · intro c hc
      simp only [String.toList_append, List.mem_append, String.toList_ofList,
        List.mem_reverse] at hc
      rcases hc with (hc | hc) | hc
      · exact .inl (isDigits_toString _ c hc)
      · exact .inr (by simpa using hc)
      · have hpart := (List.dropWhile_sublist _).subset hc
        exact .inl (isDigits_padded _ _ c (List.mem_reverse.mp hpart))

theorem isPositional_positional (count : Nat) (places : Int) :
    IsPositional (positional count places) := by
  unfold positional
  split
  · exact isPositional_toString _
  · exact isPositional_fixedTrimmed count _

theorem Binary64.isPositional_sizeText (x : Binary64) : IsPositional x.sizeText := by
  unfold sizeText
  split
  · exact isPositional_toString 0
  · dsimp only
    generalize x.rounding.shortest 17 (x.rounding.magnitude - 1) = digits
    exact isPositional_positional digits.1 digits.2

/-- A finite number is a size, behind a dash if it is negative. -/
theorem Binary64.text_of_isFinite {x : Binary64} (h : x.isFinite = true) :
    ∃ size, IsPositional size ∧ (x.text = size ∨ x.text = "-" ++ size) := by
  refine ⟨x.sizeText, x.isPositional_sizeText, ?_⟩
  have hnan : x.isNaN = false := by simp [isNaN, h]
  simp only [text, hnan, h, Bool.false_eq_true, ↓reduceIte]
  split
  · exact .inr rfl
  · exact .inl rfl

theorem toString_int (i : Int) :
    ∃ size, IsPositional size ∧ (toString i = size ∨ toString i = "-" ++ size) := by
  cases i with
  | ofNat n => exact ⟨toString n, isPositional_toString n, .inl rfl⟩
  | negSucc n => exact ⟨toString (n + 1), isPositional_toString (n + 1), .inr rfl⟩

end SqlBackup.Number
