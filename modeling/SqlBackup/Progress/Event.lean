/-!
# Events

While a job works it tells how far it is. A load counts bytes; a reader of a restore is shown a
percentage instead, which is unknown where the length of the whole is.
-/
namespace SqlBackup.Progress

/-- What a job tells while it works. -/
inductive Event where
  /-- Work on a database begins. It is the `index`-th of `total`. -/
  | started (database : String) (index total : Nat)
  /-- A table was exported, the `index`-th of `total`. -/
  | table (database table : String) (index total rows : Nat)
  /-- A load got this far. The length of compressed input is unknown. -/
  | loading (database : String) (bytesRead : Nat) (totalBytes : Option Nat) (statements : Nat)
  /-- A restore got this far. -/
  | percent (database : String) (percent : Option Nat) (statements : Nat)
  | finished (database : String)
  deriving DecidableEq, Inhabited

/-- The database that an event is about. -/
def Event.database : Event → String
  | started database _ _ => database
  | table database _ _ _ _ => database
  | loading database _ _ _ => database
  | percent database _ _ => database
  | finished database => database

/-- How many hundredths of the whole are done. All of an empty whole is done. -/
def percentage (done : Nat) : Option Nat → Option Nat
  | none => none
  | some 0 => some 100
  | some (total + 1) => some (min done (total + 1) * 100 / (total + 1))

@[simp] theorem percentage_none (done : Nat) : percentage done none = none := rfl

theorem percentage_le {done : Nat} {total : Option Nat} {p : Nat}
    (h : percentage done total = some p) : p ≤ 100 := by
  match total, h with
  | some 0, h => simp [percentage] at h; omega
  | some (n + 1), h =>
    simp only [percentage, Option.some.injEq] at h
    subst h
    exact Nat.div_le_of_le_mul (by
      have : min done (n + 1) ≤ n + 1 := Nat.min_le_right _ _
      rw [Nat.mul_comm (n + 1)]
      rw [Nat.mul_comm]
      exact Nat.mul_le_mul_left _ this)

/-- The event as a reader of a restore is shown it. -/
def Event.inPercent : Event → Event
  | loading database bytesRead totalBytes statements =>
      percent database (percentage bytesRead totalBytes) statements
  | event => event

end SqlBackup.Progress
