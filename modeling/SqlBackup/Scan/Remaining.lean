import SqlBackup.Scan.Scanner

/-!
# What a scanner has left to read

Every statement that a scanner yields leaves it with less to read, so reading statement after
statement comes to an end.
-/
namespace SqlBackup

namespace Scan.State

/-- A scan that stops at a byte has read that byte. -/
theorem length_scan_lt {limit : Nat} {s t : State} {bytes rest : List UInt8}
    {answer : Except Fault Statement} (h : s.scan limit bytes = (t, rest, some answer)) :
    rest.length < bytes.length := by
  induction bytes generalizing s with
  | nil => simp at h
  | cons b bytes ih =>
    simp only [scan] at h
    split at h
    · exact Nat.lt_succ_of_lt (ih h)
    · simp only [Prod.mk.injEq] at h
      simp [← h.2.1]
    · split at h
      · exact Nat.lt_succ_of_lt (ih h)
      · simp only [Prod.mk.injEq] at h
        simp [← h.2.1]
      · simp only [Prod.mk.injEq] at h
        simp [← h.2.1]

end Scan.State

namespace Scanner

/-- How much a scanner has left to read: the bytes, and one more for what stands at the end. -/
def remaining (sc : Scanner) : Nat :=
  if sc.finished then 0 else sc.chunk.length + sc.source.bytes.length + 1

theorem remaining_refill_lt {sc sc' : Scanner} {statement : Statement}
    (h : sc.refill = (sc', .ok (some statement))) :
    sc'.remaining < sc.source.bytes.length + 1 := by
  fun_induction refill sc with
  | case1 sc => simp [fail] at h
  | case2 sc =>
    simp only [finish, Prod.mk.injEq] at h
    simp [← h.1, remaining]
  | case3 sc c _ _ shorter _ _ ih =>
    have := ih h
    simp only [consume, obey] at this
    omega
  | case4 sc c _ shorter _ state chunk statement' scanned _ =>
    simp only [Prod.mk.injEq] at h
    have less := Scan.State.length_scan_lt scanned
    have same := congrArg List.length (Scan.Chunk.cut_append (sc.settings.room + 1) sc.source.bytes)
    simp only [List.length_append] at same
    simp only [← h.1, remaining, consume]
    split
    · omega
    · simp only [c] at less ⊢
      omega
  | case5 => simp [fail] at h
  | case6 sc c _ _ shorter _ state _ _ ih =>
    have := ih h
    simp only [consume] at this
    omega

/-- A scanner has less left to read after each statement. -/
theorem remaining_next_lt {sc sc' : Scanner} {statement : Statement}
    (h : sc.next = (sc', .ok (some statement))) : sc'.remaining < sc.remaining := by
  unfold next at h
  split at h
  · simp at h
  · next unfinished =>
    have open' : sc.finished = false := by simpa using unfinished
    split at h
    · next scanned =>
      simp only [Prod.mk.injEq] at h
      have less := Scan.State.length_scan_lt scanned
      simp only [← h.1, remaining, open', Bool.false_eq_true, ↓reduceIte]
      omega
    · simp [fail] at h
    · have less := remaining_refill_lt h
      simp only [remaining, open', Bool.false_eq_true, ↓reduceIte] at less ⊢
      omega

end Scanner

end SqlBackup
