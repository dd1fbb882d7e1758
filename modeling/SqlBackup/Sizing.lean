/-!
# Sizes

How large buffers and groups of statements are, and how many jobs work side by side.
-/
namespace SqlBackup.Sizing

def mebibyte : Nat := 1024 * 1024

/-- The size of a reader's buffer for an input of this length, if that is known. -/
def bufferSize : Option Nat → Nat
  | none => mebibyte
  | some total =>
      if total < mebibyte then 64 * 1024
      else if total < 100 * mebibyte then mebibyte
      else if total < 1024 * mebibyte then 8 * mebibyte
      else 32 * mebibyte

/-- How many statements a transaction has for an input of this length, if that is known. -/
def batchSize : Option Nat → Nat
  | none => 100
  | some total => if total < 10 * mebibyte then 100 else 500

/-- How many of some jobs work side by side. None asked for means one after the other, and a
negative number one for each processor. -/
def workers (requested : Int) (jobs processors : Nat) : Nat :=
  let wanted := if requested = 0 then 1 else if requested < 0 then processors else requested.toNat
  max 1 (min wanted jobs)

theorem workers_pos (requested : Int) (jobs processors : Nat) :
    0 < workers requested jobs processors := by
  simp only [workers]; omega

end SqlBackup.Sizing
