import Mathlib
import SqlBackup.Calendar.Reading
import SqlBackup.Proofs.Number.Digits

/-!
# Written points in time read back

The date of a day is one that there is, and the day comes back from its date. Within 400 years a
day is told by its century, its four years of that, its year of those and its day of that year;
the years start in March. So a point in time that is written in universal time is read back, leap
seconds included.
-/
namespace SqlBackup.Calendar

/-- The `n`-th day of 400 years is this day of this year of these four years of this century. -/
structure InEra (n c q k d : Nat) : Prop where
  eq : n = 36524 * c + 1461 * q + 365 * k + d
  century : c ≤ 3
  four : q ≤ 24
  year : k ≤ 3
  day : d ≤ 365
  leap : d = 365 → k = 3 ∧ (q ≠ 24 ∨ c = 3)

theorem exists_inEra {n : Nat} (h : n < 146097) : ∃ c q k d, InEra n c q k d := by
  obtain ⟨c, hc⟩ : ∃ c, c = min (n / 36524) 3 := ⟨_, rfl⟩
  obtain ⟨r, hr⟩ : ∃ r, r = n - 36524 * c := ⟨_, rfl⟩
  obtain ⟨k, hk⟩ : ∃ k, k = min (r % 1461 / 365) 3 := ⟨_, rfl⟩
  refine ⟨c, r / 1461, k, r % 1461 - 365 * k, ?_⟩
  constructor <;> omega

theorem InEra.year_eq {n c q k d : Nat} (h : InEra n c q k d) :
    (n - n / 1460 + n / 36524 - n / 146096) / 365 = 100 * c + 4 * q + k := by
  obtain ⟨heq, hc, hq, hk, hd, hleap⟩ := h
  -- Only the last day of a leap year is counted ahead of its year.
  by_cases hlast : n = 146096
  · subst hlast
    omega
  · have hcentury : n / 36524 = c := by omega
    have hfour : n / 1460 = 25 * c + q ∨
        n / 1460 = 25 * c + q + 1 ∧ 1460 ≤ 24 * c + q + 365 * k + d := by omega
    have hera : n / 146096 = 0 := by omega
    rw [hcentury, hera]
    omega

theorem InEra.day_eq {n c q k d : Nat} (h : InEra n c q k d) :
    n - (365 * (100 * c + 4 * q + k) + (100 * c + 4 * q + k) / 4 -
      (100 * c + 4 * q + k) / 100) = d := by
  obtain ⟨rfl, hc, hq, hk, hd, hleap⟩ := h
  omega

/-- The number of a month, from March on. -/
def monthOf (monthOfYear : Nat) : Nat :=
  if monthOfYear < 10 then monthOfYear + 3 else monthOfYear - 9

/-- A date told by a day of 400 years. -/
theorem ofDays_eq {days era : Int} {n c q k d : Nat} (hdays : days + 719468 = era * 146097 + n)
    (h : InEra n c q k d) :
    Date.ofDays days =
      ⟨era * 400 + (100 * c + 4 * q + k : Nat) +
          (if monthOf ((5 * d + 2) / 153) ≤ 2 then 1 else 0),
        monthOf ((5 * d + 2) / 153), d - (153 * ((5 * d + 2) / 153) + 2) / 5 + 1⟩ := by
  have hn : n < 146097 := by
    obtain ⟨rfl, hc, hq, hk, hd, hleap⟩ := h
    omega
  have hera : (days + 719468).fdiv 146097 = era := by
    rw [Int.fdiv_eq_ediv_of_nonneg _ (by decide)]
    omega
  have hday : (days + 719468 - era * 146097).toNat = n := by omega
  simp only [Date.ofDays, hera, hday, h.year_eq, h.day_eq, monthOf]
  congr 1
  split_ifs <;> simp

theorem exists_era (days : Int) : ∃ (era : Int) (n c q k d : Nat),
    days + 719468 = era * 146097 + n ∧ InEra n c q k d := by
  obtain ⟨c, q, k, d, h⟩ :=
    exists_inEra (n := ((days + 719468) % 146097).toNat) (by omega)
  exact ⟨(days + 719468) / 146097, _, c, q, k, d, by omega, h⟩

/-- The months of a year that starts in March, and the days of each. -/
theorem month_bounds {d : Nat} (h : d ≤ 365) :
    (monthOf ((5 * d + 2) / 153) + 9) % 12 = (5 * d + 2) / 153 ∧
      (153 * ((5 * d + 2) / 153) + 2) / 5 ≤ d ∧ 1 ≤ monthOf ((5 * d + 2) / 153) ∧
        monthOf ((5 * d + 2) / 153) ≤ 12 := by
  obtain ⟨m, hm⟩ : ∃ m, m = (5 * d + 2) / 153 := ⟨_, rfl⟩
  rw [← hm, monthOf]
  split_ifs <;> omega

/-- The days from the start of 1970 come back from the date. -/
theorem toDays_ofDays (days : Int) : (Date.ofDays days).toDays = days := by
  obtain ⟨era, n, c, q, k, d, hdays, h⟩ := exists_era days
  obtain ⟨hmonth, hle, -, -⟩ := month_bounds h.day
  rw [ofDays_eq hdays h, Date.toDays]
  obtain ⟨rfl, hc, hq, hk, hd, hleap⟩ := h
  generalize hm : monthOf ((5 * d + 2) / 153) = month at *
  generalize hy : 100 * c + 4 * q + k = year at *
  have hyear : (if month ≤ 2 then era * 400 + (year : Int) + (if month ≤ 2 then 1 else 0) - 1
      else era * 400 + (year : Int) + (if month ≤ 2 then 1 else 0)) = era * 400 + year := by
    split_ifs <;> ring
  have hera : (era * 400 + (year : Int)).fdiv 400 = era := by
    rw [Int.fdiv_eq_ediv_of_nonneg _ (by decide)]
    omega
  have hquarter : (era * 400 + (year : Int) - era * 400) / 4 = 25 * c + q := by omega
  have hcentury : (era * 400 + (year : Int) - era * 400) / 100 = c := by omega
  dsimp only
  rw [hyear, hera, hmonth, hquarter, hcentury]
  clear hyear hera hquarter hcentury hmonth
  omega

/-- Only February has not the same days in all years. -/
theorem daysIn_of_ne (year : Int) {month : Nat} (h : month ≠ 2) :
    daysIn year month = daysIn 1 month := by simp [daysIn, h]

/-- No month has a day behind its last. -/
theorem day_le_daysIn {d : Nat} (year : Int) (h : d ≤ 365)
    (hleap : d = 365 → isLeapYear year = true) :
    d - (153 * ((5 * d + 2) / 153) + 2) / 5 + 1 ≤ daysIn year (monthOf ((5 * d + 2) / 153)) := by
  obtain ⟨m, hm⟩ : ∃ m, m = (5 * d + 2) / 153 := ⟨_, rfl⟩
  have hm' : m ≤ 11 := by omega
  rw [← hm]
  have hlengths : ∀ m < 12, m ≠ 11 → monthOf m ≠ 2 ∧
      (153 * (m + 1) + 2) / 5 - (153 * m + 2) / 5 ≤ daysIn 1 (monthOf m) := by decide
  by_cases hfebruary : m = 11
  · subst hfebruary
    show _ ≤ if isLeapYear year then 29 else 28
    split_ifs with hyear
    · omega
    · have hne : d ≠ 365 := fun heq => hyear (hleap heq)
      omega
  · obtain ⟨hother, hlength⟩ := hlengths m (by omega) hfebruary
    rw [daysIn_of_ne year hother]
    omega

theorem isLeapYear_of_mod {year : Int} (h : year % 4 = 0)
    (h' : year % 100 ≠ 0 ∨ year % 400 = 0) : isLeapYear year = true := by
  have hfmod (m : Int) (hm : 0 ≤ m) : year.fmod m = year % m := Int.fmod_eq_emod_of_nonneg year hm
  simp only [isLeapYear, hfmod 4 (by decide), hfmod 100 (by decide), hfmod 400 (by decide)]
  simpa [h] using h'

/-- Every day has a date that there is. -/
theorem isValid_ofDays {days : Int} (h : yearInRange (Date.ofDays days).year = true) :
    (Date.ofDays days).isValid = true := by
  obtain ⟨era, n, c, q, k, d, hdays, hn⟩ := exists_era days
  obtain ⟨-, hle, hone, htwelve⟩ := month_bounds hn.day
  rw [ofDays_eq hdays hn] at h ⊢
  have hlast := day_le_daysIn (era * 400 + (100 * c + 4 * q + k : Nat) +
    (if monthOf ((5 * d + 2) / 153) ≤ 2 then 1 else 0)) hn.day fun hd => by
      obtain ⟨-, hc, hq, hk, -, hleap⟩ := hn
      obtain ⟨rfl, hfour⟩ := hleap hd
      subst hd
      show isLeapYear (_ + 1) = true
      refine isLeapYear_of_mod ?_ ?_ <;> push_cast <;> omega
  simp only [Date.isValid, h, Bool.true_and, Bool.and_eq_true, decide_eq_true_eq]
  exact ⟨⟨⟨hone, htwelve⟩, by omega⟩, hlast⟩

end SqlBackup.Calendar

namespace SqlBackup.Calendar

open Number (padded)

/-! ### Parts -/

namespace Reading

variable {rest : List Char}

/-- The text does not go on with a digit. -/
def NoDigit (rest : List Char) : Prop := ∀ c ∈ rest.head?, c.isDigit = false

theorem noDigit_cons {c : Char} (h : c.isDigit = false) (rest : List Char) :
    NoDigit (c :: rest) := by simpa [NoDigit] using h

theorem takeWhile_of_noDigit (h : NoDigit rest) (n : Nat) :
    (rest.take n).takeWhile Char.isDigit = [] := by
  cases rest with
  | nil => simp
  | cons c rest =>
    cases n with
    | zero => rfl
    | succ n => simp [h c (by simp)]

theorem digits_append {most : Nat} {ds : List Char} (hdigits : ∀ c ∈ ds, c.isDigit = true)
    (hne : ds ≠ []) (hlength : ds.length ≤ most) (hstop : ds.length = most ∨ NoDigit rest) :
    digits most (ds ++ rest) = some (Nat.ofDigitChars 10 ds 0, rest) := by
  have htake : ((ds ++ rest).take most).takeWhile Char.isDigit = ds := by
    rw [List.take_append, List.take_of_length_le hlength, List.takeWhile_append_of_pos hdigits]
    rcases hstop with hfull | hstop
    · simp [hfull]
    · rw [takeWhile_of_noDigit hstop, List.append_nil]
  simp only [digits, htake, List.isEmpty_iff, if_neg hne, List.drop_left]
  congr 2
  rw [Nat.ofDigitChars_eq_foldl]
  congr 1
  funext n c
  rw [Nat.mul_comm]
  rfl

theorem isBlank_of_isDigit {c : Char} (h : c.isDigit = true) : Text.isBlank c = false := by
  simp only [Char.isDigit, Bool.and_eq_true, decide_eq_true_eq, ge_iff_le,
    UInt32.le_iff_toNat_le] at h
  simp only [Text.isBlank, Bool.or_eq_false_iff, Bool.and_eq_false_iff, decide_eq_false_iff_not,
    beq_eq_false_iff_ne, UInt32.le_iff_toNat_le, ne_eq, ← UInt32.toNat_inj]
  simp at h ⊢
  omega

/-- A digit is no blank. -/
theorem trimStartChars_of_isDigit {ds : List Char} (hdigits : ∀ c ∈ ds, c.isDigit = true)
    (hne : ds ≠ []) (rest : List Char) :
    Text.trimStartChars (ds ++ rest) = ds ++ rest := by
  obtain ⟨c, cs, rfl⟩ := List.exists_cons_of_ne_nil hne
  have hdigit := hdigits c (by simp)
  have hblank : Text.isBlank c = false := isBlank_of_isDigit hdigit
  rw [List.cons_append, Text.trimStartChars, List.dropWhile_cons_of_neg (by simp [hblank])]

theorem field_padded {a b n : Nat} (hlow : a ≤ n) (hhigh : n ≤ b) (h : n < 100)
    (rest : List Char) : field a b ((padded 2 n).toList ++ rest) = some (n, rest) := by
  have hdigits : ∀ c ∈ (padded 2 n).toList, c.isDigit = true := Number.isDigits_padded 2 n
  have hlength : (padded 2 n).toList.length = 2 := Number.length_padded_of_lt h (by decide)
  rw [field, trimStartChars_of_isDigit hdigits (Number.padded_ne_nil 2 n),
    digits_append hdigits (Number.padded_ne_nil 2 n) hlength.le (.inl hlength),
    Number.ofDigitChars_padded]
  exact if_pos ⟨hlow, hhigh⟩

theorem year_yearText (y : Int) (rest : List Char) :
    year ((yearText y).toList ++ '-' :: rest) = some (y, '-' :: rest) := by
  have hdigits : ∀ c ∈ (padded 4 y.natAbs).toList, c.isDigit = true :=
    Number.isDigits_padded 4 y.natAbs
  have hne := Number.padded_ne_nil 4 y.natAbs
  have hstop : NoDigit ('-' :: rest) := noDigit_cons rfl rest
  have hsigned {most : Nat} (hmost : (padded 4 y.natAbs).toList.length ≤ most) :
      digits most ((padded 4 y.natAbs).toList ++ '-' :: rest) = some (y.natAbs, '-' :: rest) := by
    rw [digits_append hdigits hne hmost (.inr hstop), Number.ofDigitChars_padded]
  have hlength : (padded 4 y.natAbs).toList.length ≤
      ((padded 4 y.natAbs).toList ++ '-' :: rest).length := by simp
  rw [yearText]
  split_ifs with hneg hbig
  · have hcons : ("-" ++ padded 4 y.natAbs).toList ++ '-' :: rest =
        '-' :: ((padded 4 y.natAbs).toList ++ '-' :: rest) := by simp
    have htrim (cs : List Char) : Text.trimStartChars ('-' :: cs) = '-' :: cs := rfl
    have hvalue : -(y.natAbs : Int) = y := by omega
    simp only [hcons, year, htrim, hsigned hlength, Option.map_some, hvalue]
  · have hcons : ("+" ++ padded 4 y.natAbs).toList ++ '-' :: rest =
        '+' :: ((padded 4 y.natAbs).toList ++ '-' :: rest) := by simp
    have htrim (cs : List Char) : Text.trimStartChars ('+' :: cs) = '+' :: cs := rfl
    have hvalue : (y.natAbs : Int) = y := by omega
    simp only [hcons, year, htrim, hsigned hlength, Option.map_some, hvalue]
  · have hshort := Number.length_padded_of_lt (w := 4) (n := y.natAbs) (by omega) (by decide)
    have hhead {c : Char} {more : List Char}
        (h : (padded 4 y.natAbs).toList ++ '-' :: rest = c :: more) : c.isDigit = true := by
      obtain ⟨d, ds, hds⟩ := List.exists_cons_of_ne_nil hne
      rw [hds, List.cons_append] at h
      exact (List.cons.inj h).1 ▸ hdigits d (by simp [hds])
    rw [year, trimStartChars_of_isDigit hdigits hne]
    split
    · next more h => cases hhead h
    · next more h => cases hhead h
    · have hvalue : (y.natAbs : Int) = y := by omega
      simp only [hsigned hshort.le, Option.map_some, hvalue]

theorem decimals_append (nanos : Nat) (h : nanos < 1000000000) {c : Char}
    (hc : c.isDigit = false) (hpoint : c ≠ '.') (rest : List Char) :
    decimals ((Instant.decimals nanos).toList ++ c :: rest) = some (nanos, c :: rest) := by
  have hpart (width n : Nat) (hwidth : 0 < width) (hmost : width ≤ 9) (hn : n < 10 ^ width)
      (hscale : n * 10 ^ (9 - width) = nanos) :
      decimals (("." ++ padded width n).toList ++ c :: rest) = some (nanos, c :: rest) := by
    have hdigits : ∀ d ∈ (padded width n).toList, d.isDigit = true :=
      Number.isDigits_padded width n
    have hlength := Number.length_padded_of_lt hn hwidth
    rw [String.toList_append, List.append_assoc]
    show (digits 9 _ >>= fun p => _) = _
    rw [List.append_eq, List.nil_append, digits_append hdigits (Number.padded_ne_nil width n)
      (hlength.trans_le hmost) (.inr (noDigit_cons hc rest)), Number.ofDigitChars_padded]
    have hused : ((padded width n).toList ++ c :: rest).length - (c :: rest).length = width := by
      rw [List.length_append, hlength, Nat.add_sub_cancel]
    show some (n * 10 ^ (9 - (((padded width n).toList ++ c :: rest).length -
      (c :: rest).length)), (c :: rest).dropWhile Char.isDigit) = _
    rw [hused, hscale, List.dropWhile_cons_of_neg (by simp [hc])]
  rw [Instant.decimals]
  split_ifs with hzero hmilli hmicro
  · subst hzero
    show decimals (c :: rest) = _
    rw [decimals.eq_def]
    split
    · next h => exact absurd (List.cons.inj h).1 hpoint
    · rfl
  · exact hpart 3 (nanos / 1000000) (by decide) (by decide) (by omega) (by norm_num; omega)
  · exact hpart 6 (nanos / 1000) (by decide) (by decide) (by omega) (by norm_num; omega)
  · exact hpart 9 nanos (by decide) (by decide) (by omega) (by norm_num)

theorem mark_cons {c : Char} (h : Text.isBlank c = false) (cs : List Char) :
    mark c (c :: cs) = some cs := by
  rw [mark, Text.trimStartChars, List.dropWhile_cons_of_neg (by simp [h])]
  exact if_pos (beq_self_eq_true c)

theorem daysIn_le (year : Int) (month : Nat) : daysIn year month ≤ 31 := by
  rw [daysIn]
  split_ifs <;> decide

theorem date_text {d : Date} (h : d.isValid = true) (rest : List Char) :
    date (d.text.toList ++ rest) = some (d, rest) := by
  have hbounds := h
  simp only [Date.isValid, Bool.and_eq_true, decide_eq_true_eq] at hbounds
  obtain ⟨⟨⟨⟨-, hone⟩, htwelve⟩, hfirst⟩, hlast⟩ := hbounds
  have hday := hlast.trans (daysIn_le d.year d.month)
  have htext : d.text.toList ++ rest = (yearText d.year).toList ++ '-' ::
      ((padded 2 d.month).toList ++ '-' :: ((padded 2 d.day).toList ++ rest)) := by
    simp [Date.text, String.toList_append]
  simp only [htext, date, year_yearText, Option.bind_eq_bind, Option.bind_some,
    mark_cons (c := '-') rfl, field_padded hone htwelve (by omega),
    field_padded hfirst hday (by omega), h, if_true]

theorem time_text {i : Instant} (hnanos : i.nanos < 1000000000 ∨
    1000000000 ≤ i.nanos ∧ i.nanos < 2000000000 ∧ i.seconds % 60 = 59) {c : Char}
    (hc : c.isDigit = false) (hpoint : c ≠ '.') (rest : List Char) :
    time (i.time.text.toList ++ ((Instant.decimals (i.nanos % 1000000000)).toList ++ c :: rest)) =
      some (i.time, c :: rest) := by
  have hmod : i.seconds.fmod 86400 = i.seconds % 86400 := Int.fmod_eq_emod_of_nonneg _ (by decide)
  obtain ⟨second, hsecond⟩ : ∃ second, second = (i.seconds.fmod 86400).toNat := ⟨_, rfl⟩
  have htime : i.time = ⟨second / 3600, second / 60 % 60, second % 60, i.nanos⟩ := by
    rw [hsecond]
    rfl
  have htext : i.time.text.toList ++
      ((Instant.decimals (i.nanos % 1000000000)).toList ++ c :: rest) =
      (padded 2 (second / 3600)).toList ++ ':' :: ((padded 2 (second / 60 % 60)).toList ++ ':' ::
        ((padded 2 (second % 60 + i.nanos / 1000000000)).toList ++
          ((Instant.decimals (i.nanos % 1000000000)).toList ++ c :: rest))) := by
    simp [htime, Time.text, String.toList_append]
  simp only [htext, time, Option.bind_eq_bind, Option.bind_some, mark_cons (c := ':') rfl,
    field_padded (a := 0) (b := 23) (n := second / 3600) (by omega) (by omega) (by omega),
    field_padded (a := 0) (b := 59) (n := second / 60 % 60) (by omega) (by omega) (by omega),
    field_padded (a := 0) (b := 60) (n := second % 60 + i.nanos / 1000000000) (by omega)
      (by omega) (by omega),
    decimals_append (i.nanos % 1000000000) (by omega) hc hpoint rest]
  rw [htime]
  rcases hnanos with hshort | ⟨hleap, hlong, hlast⟩
  · have hsame : second % 60 + i.nanos / 1000000000 = second % 60 := by omega
    have hrest : i.nanos % 1000000000 = i.nanos := by omega
    rw [hsame, hrest, if_neg (by omega)]
  · have hend : second % 60 = 59 := by omega
    have hrest : 1000000000 + i.nanos % 1000000000 = i.nanos := by omega
    rw [hend, hrest, if_pos (by omega)]

end Reading

/-- A point in time that a clock can show: a leap second is the last of its minute, and the year is
one that a date can have. -/
structure Instant.IsShown (i : Instant) : Prop where
  nanos : i.nanos < 1000000000 ∨
    1000000000 ≤ i.nanos ∧ i.nanos < 2000000000 ∧ i.seconds % 60 = 59
  year : yearInRange i.date.year = true

instance (i : Instant) : Decidable i.IsShown :=
  decidable_of_iff ((i.nanos < 1000000000 ∨
      1000000000 ≤ i.nanos ∧ i.nanos < 2000000000 ∧ i.seconds % 60 = 59) ∧
    yearInRange i.date.year = true) ⟨fun h => ⟨h.1, h.2⟩, fun h => ⟨h.nanos, h.year⟩⟩

theorem Instant.ofLocal_date_time (i : Instant) : Instant.ofLocal i.date i.time 0 = i := by
  have hdiv : i.seconds.fdiv 86400 = i.seconds / 86400 := Int.fdiv_eq_ediv_of_nonneg _ (by decide)
  have hmod : i.seconds.fmod 86400 = i.seconds % 86400 := Int.fmod_eq_emod_of_nonneg _ (by decide)
  have hseconds : i.date.toDays * 86400 +
      (i.time.hour * 3600 + i.time.minute * 60 + i.time.second : Nat) - 0 = i.seconds := by
    rw [Instant.date, toDays_ofDays, hdiv]
    simp only [Instant.time, hmod]
    omega
  rw [Instant.ofLocal, hseconds]
  rfl

/-- A point in time comes back from its text. -/
theorem Instant.ofText?_text {i : Instant} (h : i.IsShown) :
    Instant.ofText? (i.text "Z") = some i := by
  have htext : (i.text "Z").toList = i.date.text.toList ++ 'T' :: (i.time.text.toList ++
      ((Instant.decimals (i.nanos % 1000000000)).toList ++ ['Z'])) := by
    simp [Instant.text, String.toList_append]
  have hdate : i.date.isValid = true := isValid_ofDays h.year
  have hmark : ('T' == 'T' || 'T' == 't' || 'T' == ' ') = true := rfl
  have htime := Reading.time_text h.nanos (c := 'Z') (by decide) (by decide) []
  have hzone : Reading.zone ['Z'] = some (0, []) := rfl
  simp only [Instant.ofText?, htext, Reading.date_text hdate, Option.bind_eq_bind,
    Option.bind_some, hmark, if_true, htime, hzone, Instant.ofLocal_date_time, h.year]
  rfl

end SqlBackup.Calendar
