/-!
# Positional decimals

Numbers of the form `c * 10^u` written out with all their places and without an exponent.
-/
namespace SqlBackup.Number

/-- The decimal digits of a number, with zeros in front up to the given width. -/
def padded (width n : Nat) : String :=
  let digits := (toString n).toList
  String.ofList (List.replicate (width - digits.length) '0' ++ digits)

theorem length_padded (width n : Nat) : width ≤ (padded width n).toList.length := by
  simp only [padded, String.toList_ofList, List.length_append, List.length_replicate]
  omega

/-- The number `count * 10^-places`, without zeros at the end of its fraction. -/
def fixedTrimmed (count places : Nat) : String :=
  let whole := toString (count / Nat.pow 10 places)
  let part := (padded places (count % Nat.pow 10 places)).toList
  let shown := (part.reverse.dropWhile (· == '0')).reverse
  if places = 0 || shown.isEmpty then whole else whole ++ "." ++ String.ofList shown

/-- The number `count * 10^places` in full. -/
def positional (count : Nat) (places : Int) : String :=
  match places with
  | .ofNat zeros => toString (count * Nat.pow 10 zeros)
  | .negSucc n => fixedTrimmed count (n + 1)

end SqlBackup.Number
