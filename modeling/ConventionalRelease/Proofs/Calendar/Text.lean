import ConventionalRelease.Proofs.Calendar.Order
import ConventionalRelease.Proofs.Text.Fronts
import Mathlib.Data.Option.Basic

/-!
# Reading the text of a day

The text of a day is read as that day, if its year is one that can be read (`Date.read?_text`). The
years in which there are instants can be read (`Instant.year_date`), so the text of the day of an
instant always is.
-/

namespace ConventionalRelease

namespace Date

/-! ## Numbers -/

variable {width n : Nat} {rest : List Char}

/-- Digits with zeros in front are digits. -/
theorem isDigit_of_mem_padded {c : Char} (h : c ∈ padded width n) : c.isDigit = true := by
  rcases List.mem_append.1 h with h | h
  · rw [(List.mem_replicate.1 h).2]
    rfl
  · exact Nat.isDigit_of_mem_toDigits (by omega) (by omega) h

/-- Zeros in front do not change a number. -/
theorem ofDigitChars_padded (width n : Nat) : Nat.ofDigitChars 10 (padded width n) 0 = n := by
  rw [padded, List.leftpad, Nat.ofDigitChars_append, Nat.ofDigitChars_replicate_zero, Nat.mul_zero,
    Nat.ofDigitChars_ten_toDigits]

/-- There is a digit. -/
theorem exists_padded_eq_cons (width n : Nat) :
    ∃ c s, padded width n = c :: s ∧ c.isDigit = true := by
  have hne : padded width n ≠ [] := List.append_ne_nil_of_right_ne_nil _ Nat.toDigits_ne_nil
  obtain ⟨c, s, hcons⟩ := List.exists_cons_of_ne_nil hne
  exact ⟨c, s, hcons, isDigit_of_mem_padded (hcons ▸ List.mem_cons_self)⟩

theorem isEmpty_padded (width n : Nat) : (padded width n).isEmpty = false := by
  obtain ⟨c, s, hcons, -⟩ := exists_padded_eq_cons width n
  rw [hcons]
  rfl

/-- A number that has no more digits than the width is as wide. -/
theorem length_padded (h : (Nat.toDigits 10 n).length ≤ width) :
    (padded width n).length = width := by
  rw [padded, List.leftpad, List.length_append, List.length_replicate]
  omega

/-- A number with as many digits as are read at most is read. -/
theorem readNumber?_padded (h : (Nat.toDigits 10 n).length ≤ width) :
    readNumber? (some width) (padded width n ++ rest) = some (n, rest) := by
  have hlength := length_padded h
  have hdigits : ((padded width n ++ rest).takeWhile Char.isDigit).take width = padded width n := by
    rw [List.takeWhile_append_of_pos fun c => isDigit_of_mem_padded, List.take_left' hlength]
  simp only [readNumber?, hdigits, isEmpty_padded, ofDigitChars_padded, List.drop_left]
  rfl

/-- A number of any width is read up to what is no digit. -/
theorem readNumber?_padded_of_stops (hrest : Text.stops Char.isDigit rest = true) :
    readNumber? none (padded width n ++ rest) = some (n, rest) := by
  have hdigits : (padded width n ++ rest).takeWhile Char.isDigit = padded width n :=
    Text.takeWhile_append_of_stops (fun c => isDigit_of_mem_padded) hrest
  simp only [readNumber?, hdigits, isEmpty_padded, ofDigitChars_padded, List.drop_left]
  rfl

/-- A digit is no blank. -/
theorem isBlank_of_isDigit {c : Char} (h : c.isDigit = true) : Text.isBlank c = false := by
  have hc : 48 ≤ c.toNat ∧ c.toNat ≤ 57 := by
    simpa [Char.isDigit, UInt32.le_iff_toNat_le] using h
  simp [Text.isBlank]
  omega

/-! ## Days -/

/-- A year without a sign has four digits at most. -/
theorem readYear?_of_isDigit {c : Char} {s : List Char} (hc : c.isDigit = true) :
    readYear? (c :: s) = (readNumber? (some 4) (c :: s)).map fun (n, rest) =>
      ((n : Int), rest) := by
  unfold readYear?
  split
  · next h =>
    obtain ⟨rfl, -⟩ := List.cons.inj h
    exact absurd hc (by decide)
  · next h =>
    obtain ⟨rfl, -⟩ := List.cons.inj h
    exact absurd hc (by decide)
  · rfl

/-- A year is read up to the hyphen after it. -/
theorem readYear?_yearCharacters (year : Int) :
    readYear? (yearCharacters year ++ '-' :: rest) = some (year, '-' :: rest) := by
  have hsigned :
      readNumber? none (padded 4 year.natAbs ++ '-' :: rest) = some (year.natAbs, '-' :: rest) :=
    readNumber?_padded_of_stops rfl
  rw [yearCharacters]
  split
  · next h =>
    have hdigits : (Nat.toDigits 10 year.toNat).length ≤ 4 :=
      (Nat.length_toDigits_le_iff (by decide) (by decide)).2 (by omega)
    have hread : readNumber? (some 4) (padded 4 year.toNat ++ '-' :: rest) =
        some (year.toNat, '-' :: rest) :=
      readNumber?_padded hdigits
    obtain ⟨c, s, hcons, hc⟩ := exists_padded_eq_cons 4 year.toNat
    rw [hcons, List.cons_append] at hread ⊢
    rw [readYear?_of_isDigit hc, hread]
    exact congrArg (fun n => some (n, '-' :: rest)) (Int.toNat_of_nonneg h.1)
  · split
    · next h =>
      show (readNumber? none (padded 4 year.natAbs ++ '-' :: rest)).map _ = _
      rw [hsigned]
      exact congrArg (fun n => some (n, '-' :: rest)) (Int.natAbs_of_nonneg h)
    · next h =>
      show (readNumber? none (padded 4 year.natAbs ++ '-' :: rest)).map _ = _
      rw [hsigned]
      have hneg : -(year.natAbs : Int) = year := by omega
      exact congrArg (fun n => some (n, '-' :: rest)) hneg

/-- A year does not begin with a blank. -/
theorem dropWhile_yearCharacters (year : Int) :
    (yearCharacters year ++ rest).dropWhile Text.isBlank = yearCharacters year ++ rest := by
  have hfront {c : Char} {s : List Char} (hs : yearCharacters year = c :: s)
      (hc : Text.isBlank c = false) :
      (yearCharacters year ++ rest).dropWhile Text.isBlank = yearCharacters year ++ rest := by
    rw [hs]
    exact List.dropWhile_cons_of_neg (by rw [hc]; exact Bool.false_ne_true)
  by_cases h : 0 ≤ year ∧ year ≤ 9999
  · obtain ⟨c, s, hcons, hc⟩ := exists_padded_eq_cons 4 year.toNat
    exact hfront ((if_pos h).trans hcons) (isBlank_of_isDigit hc)
  · refine hfront (if_neg h) ?_
    split <;> decide

/-- A part after the year is read. -/
theorem readPart?_padded (h : n < 100) :
    readPart? ('-' :: (padded 2 n ++ rest)) = some (n, rest) := by
  have hdigits : (Nat.toDigits 10 n).length ≤ 2 :=
    (Nat.length_toDigits_le_iff (by decide) (by decide)).2 h
  have hread : readNumber? (some 2) (padded 2 n ++ rest) = some (n, rest) :=
    readNumber?_padded hdigits
  obtain ⟨c, s, hcons, hc⟩ := exists_padded_eq_cons 2 n
  have hblank : (padded 2 n ++ rest).dropWhile Text.isBlank = padded 2 n ++ rest := by
    rw [hcons]
    exact List.dropWhile_cons_of_neg (by rw [isBlank_of_isDigit hc]; exact Bool.false_ne_true)
  show readNumber? (some 2) ((padded 2 n ++ rest).dropWhile Text.isBlank) = _
  rw [hblank, hread]

/-- A text is read as a day exactly if its parts are read, there is such a day, and its year can be
read. -/
theorem read?_eq_some_iff {s : String} {d : Date} : read? s = some d ↔ ∃ rest rest',
    readYear? (s.toList.dropWhile Text.isBlank) = some (d.year, rest) ∧
      readPart? rest = some (d.month, rest') ∧
      readPart? rest' = some (d.day, []) ∧ readableYears.1 ≤ d.year ∧ d.year ≤ readableYears.2 := by
  constructor
  · intro h
    obtain ⟨⟨year, rest⟩, hyear, h⟩ := Option.bind_eq_some_iff.1 h
    obtain ⟨⟨month, rest'⟩, hmonth, h⟩ := Option.bind_eq_some_iff.1 h
    obtain ⟨⟨day, rest''⟩, hday, h⟩ := Option.bind_eq_some_iff.1 h
    obtain ⟨u, hguard, hparts⟩ := Option.bind_eq_some_iff.1 h
    have hbounds := (Option.guard_eq_some' u).1 hguard
    simp only [Bool.and_eq_true, decide_eq_true_eq, List.isEmpty_iff] at hbounds
    obtain ⟨⟨rfl, hfirst⟩, hlast⟩ := hbounds
    rw [ofParts?] at hparts
    split at hparts
    · cases hparts
      exact ⟨rest, rest', hyear, hmonth, hday, hfirst, hlast⟩
    · cases hparts
  · rintro ⟨rest, rest', hyear, hmonth, hday, hbounds⟩
    refine Option.bind_eq_some_iff.2 ⟨_, hyear, Option.bind_eq_some_iff.2 ⟨_, hmonth, ?_⟩⟩
    refine Option.bind_eq_some_iff.2 ⟨_, hday, Option.bind_eq_some_iff.2 ⟨(), ?_, dif_pos d.valid⟩⟩
    exact (Option.guard_eq_some' ()).2 (by simp [hbounds])

/-- The text of a day is read as that day if its year can be read. -/
theorem read?_text {d : Date} (h : readableYears.1 ≤ d.year ∧ d.year ≤ readableYears.2) :
    read? d.text = some d := by
  obtain ⟨-, -, hday⟩ := d.valid
  have hmonth := d.month_le
  have hlength : d.day < 100 := by
    have := monthLength_le d.year d.month
    omega
  have hyear : readYear? (d.text.toList.dropWhile Text.isBlank) =
      some (d.year, '-' :: (padded 2 d.month ++ '-' :: padded 2 d.day)) := by
    rw [text, String.toList_ofList, characters, List.append_assoc, dropWhile_yearCharacters]
    exact readYear?_yearCharacters d.year
  have hpart : readPart? ('-' :: (padded 2 d.month ++ '-' :: padded 2 d.day)) =
      some (d.month, '-' :: padded 2 d.day) := readPart?_padded (by omega)
  have hlast : readPart? ('-' :: padded 2 d.day) = some (d.day, []) := by
    have hread : readPart? ('-' :: (padded 2 d.day ++ [])) = some (d.day, []) :=
      readPart?_padded hlength
    rwa [List.append_nil] at hread
  exact read?_eq_some_iff.2 ⟨_, _, hyear, hpart, hlast, h⟩

/-- What is read as a day has a year that can be read. -/
theorem year_of_read? {s : String} {d : Date} (h : read? s = some d) :
    readableYears.1 ≤ d.year ∧ d.year ≤ readableYears.2 := by
  obtain ⟨_, _, -, -, -, hyear⟩ := read?_eq_some_iff.1 h
  exact hyear

/-- The first day that can be read. -/
def firstReadable : Date := ⟨readableYears.1, 1, 1, by decide⟩

/-- The last day that can be read. -/
def lastReadable : Date := ⟨readableYears.2, 12, 31, by decide⟩

/-- The days from the first to the last that can be read are those of the years that can be read. -/
theorem readable_iff {d : Date} :
    firstReadable ≤ d ∧ d ≤ lastReadable ↔ readableYears.1 ≤ d.year ∧ d.year ≤ readableYears.2 := by
  obtain ⟨hmonth, hday, hle⟩ := d.valid
  have htwelve := d.month_le
  have hlength := monthLength_le d.year d.month
  rw [le_iff, le_iff]
  simp only [firstReadable, lastReadable]
  omega

end Date

/-- The days of the instants are those that can be read. -/
theorem Instant.mem_bounds_iff {t : Instant} :
    bounds.1 ≤ t.seconds ∧ t.seconds ≤ bounds.2 ↔
      Date.readableYears.1 ≤ t.date.year ∧ t.date.year ≤ Date.readableYears.2 := by
  have hfirst : (ofDayCount Date.firstReadable.toDays).seconds = bounds.1 := by decide +kernel
  have hlast : (ofDayCount (Date.lastReadable.toDays + 1)).seconds = bounds.2 + 1 := by
    decide +kernel
  rw [← Date.readable_iff, le_date_iff, date_le_iff, hfirst, hlast, Int.lt_add_one_iff]

end ConventionalRelease
