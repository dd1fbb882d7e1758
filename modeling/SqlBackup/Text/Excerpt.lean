/-!
# Excerpts

A report shows at most a given number of characters of a text and marks the cut by three dots.
-/
namespace SqlBackup.Text

/-- The longest stretch of a statement, or of a program's complaint, that a report shows. -/
def excerptLimit : Nat := 200

/-- The text itself when it has at most `most` characters, else its first `most` and dots. -/
def excerpt (most : Nat) (text : String) : String :=
  let shown := text.toList.take (most + 1)
  if shown.length ≤ most then text else String.ofList (shown.take most) ++ "..."

theorem excerpt_of_length_le {most : Nat} {text : String} (h : text.toList.length ≤ most) :
    excerpt most text = text := by
  have : (text.toList.take (most + 1)).length ≤ most := by
    simp only [List.length_take]; omega
  simp only [excerpt, this, if_true]

end SqlBackup.Text
