import ConventionalRelease.Text.Blank

/-!
# Days of the Gregorian calendar

A date names a day by year, month and day of the month; a day count is the number of days since the
first of January 1970. `Date.ofDays` and `Date.toDays` go between the two, and `toDays_ofDays` says
that no day is lost on the way.
-/

namespace ConventionalRelease

/-! ## Lengths of months -/

/-- Whether the year has a 29th of February. -/
def isLeap (year : Int) : Bool :=
  year % 4 = 0 && (year % 100 ≠ 0 || year % 400 = 0)

/-- The lengths of the months, from January on. -/
def monthLengths (year : Int) : List Nat :=
  [31, if isLeap year then 29 else 28, 31, 30, 31, 30, 31, 31, 30, 31, 30, 31]

/-- The length of a month; there is no thirteenth. -/
def monthLength (year : Int) (month : Nat) : Nat :=
  (monthLengths year).getD (month - 1) 0

/-- The days of the years from year 1 to the one before. -/
def daysBeforeYear (year : Int) : Int :=
  365 * (year - 1) + (year - 1) / 4 - (year - 1) / 100 + (year - 1) / 400

/-- The days of months of some lengths. -/
def totalDays : List Nat → Nat
  | [] => 0
  | length :: lengths => length + totalDays lengths

theorem totalDays_year (year : Int) :
    totalDays (monthLengths year) = if isLeap year then 366 else 365 := by
  by_cases h : isLeap year <;> simp [monthLengths, totalDays, h]

/-! ## Dates -/

/-- A day of the calendar. -/
structure Date where
  /-- The year; the year before year 1 is year 0. -/
  year : Int
  /-- The month, from 1 on. -/
  month : Nat
  /-- The day of the month, from 1 on. -/
  day : Nat
  /-- The month has such a day. -/
  valid : 1 ≤ month ∧ 1 ≤ day ∧ day ≤ monthLength year month
  deriving DecidableEq, Repr

namespace Date

/-- The first day of January 1970. -/
def epoch : Date := ⟨1970, 1, 1, by decide⟩

instance : Inhabited Date := ⟨epoch⟩

/-- The date with the given parts, if there is one. -/
def ofParts? (year : Int) (month day : Nat) : Option Date :=
  if h : 1 ≤ month ∧ 1 ≤ day ∧ day ≤ monthLength year month then some ⟨year, month, day, h⟩
  else none

/-- The day count of the last day before year 1. -/
def dayBeforeYears : Int := -719163

/-- The number of days since the first of January 1970. -/
def toDays (d : Date) : Int :=
  dayBeforeYears + daysBeforeYear d.year +
    totalDays ((monthLengths d.year).take (d.month - 1)) + d.day

/-- The month and the day of the month at a number of days after the first day of a month, when the
month and those after it have the lengths. -/
def locate : Nat → List Nat → Nat → Nat × Nat
  | month, [], days => (month, days + 1)
  | month, length :: lengths, days =>
    if days < length then (month, days + 1) else locate (month + 1) lengths (days - length)

theorem locate_spec (lengths : List Nat) (days : Nat) (h : days < totalDays lengths) (month : Nat) :
    month ≤ (locate month lengths days).1 ∧ 1 ≤ (locate month lengths days).2 ∧
      (locate month lengths days).2 ≤ lengths.getD ((locate month lengths days).1 - month) 0 ∧
      totalDays (lengths.take ((locate month lengths days).1 - month)) +
        (locate month lengths days).2 =
        days + 1 := by
  induction lengths generalizing days month with
  | nil => simp [totalDays] at h
  | cons length lengths ih =>
    by_cases hd : days < length
    · simp only [locate, if_pos hd]
      simp [totalDays]
      omega
    · have hrest : days - length < totalDays lengths := by simp [totalDays] at h; omega
      obtain ⟨hm, h1, hle, hsum⟩ := ih (days - length) hrest (month + 1)
      simp only [locate, if_neg hd]
      obtain ⟨k, hk⟩ : ∃ k, (locate (month + 1) lengths (days - length)).1 = month + 1 + k :=
        ⟨_, (Nat.add_sub_cancel' hm).symm⟩
      rw [hk] at hle hsum ⊢
      rw [show month + 1 + k - (month + 1) = k by omega] at hle hsum
      rw [show month + 1 + k - month = k + 1 by omega]
      refine ⟨by omega, h1, by simpa using hle, ?_⟩
      simp only [List.take_succ_cons, totalDays]
      omega

/-- A year of more than 365 days is the last of four years, and not of those at the end of a century
unless the century is the last of its cycle: a leap year. -/
theorem days_lt_of_not_isLeap {a c q y days : Int} (hc : 0 ≤ c ∧ c ≤ 3) (hq : 0 ≤ q ∧ q ≤ 24)
    (hy : 0 ≤ y ∧ y ≤ 3) (hshort : y < 3 → days < 365)
    (hlast : q = 24 → c < 3 → 365 * y + days < 1460)
    (h : ¬ isLeap (400 * a + 100 * c + 4 * q + y + 1) = true) : days < 365 := by
  simp only [isLeap, Bool.and_eq_true, Bool.or_eq_true, decide_eq_true_eq] at h
  by_cases h3 : y = 3
  · subst h3
    by_cases h24 : q = 24
    · subst h24
      omega
    · omega
  · omega

theorem daysBeforeYear_of_cycles {a c q y : Int} (hc : 0 ≤ c ∧ c ≤ 3) (hq : 0 ≤ q ∧ q ≤ 24)
    (hy : 0 ≤ y ∧ y ≤ 3) :
    daysBeforeYear (400 * a + 100 * c + 4 * q + y + 1) =
      146097 * a + 36524 * c + 1461 * q + 365 * y := by
  have h4 : (400 * a + 100 * c + 4 * q + y) / 4 = 100 * a + 25 * c + q := by omega
  have h100 : (400 * a + 100 * c + 4 * q + y) / 100 = 4 * a + c := by omega
  have h400 : (400 * a + 100 * c + 4 * q + y) / 400 = a := by omega
  simp only [daysBeforeYear, Int.add_sub_cancel, h4, h100, h400]
  omega

/-- A day count cut into cycles of 400, 100 and 4 years, single years and days: a cycle of 400 years
counts at most four centuries, and one of four years at most four. -/
structure Cycles where
  /-- The cycles of 400 years. -/
  cycles : Int
  centuries : Int
  /-- The cycles of four years. -/
  quads : Int
  years : Int
  days : Int

namespace Cycles

/-- The parts of a number of days after the first day of year 1. -/
def ofDays (n : Int) : Cycles :=
  let inCycle := n % 146097
  let centuries := min (inCycle / 36524) 3
  let inCentury := inCycle - centuries * 36524
  let inQuad := inCentury % 1461
  let years := min (inQuad / 365) 3
  ⟨n / 146097, centuries, inCentury / 1461, years, inQuad - years * 365⟩

/-- The year. -/
def year (c : Cycles) : Int :=
  400 * c.cycles + 100 * c.centuries + 4 * c.quads + c.years + 1

theorem bounds (n : Int) :
    (0 ≤ (ofDays n).centuries ∧ (ofDays n).centuries ≤ 3) ∧
      (0 ≤ (ofDays n).quads ∧ (ofDays n).quads ≤ 24) ∧
      (0 ≤ (ofDays n).years ∧ (ofDays n).years ≤ 3) ∧
      (0 ≤ (ofDays n).days ∧ (ofDays n).days ≤ 365) ∧
        ((ofDays n).years < 3 → (ofDays n).days < 365) ∧
      ((ofDays n).quads = 24 → (ofDays n).centuries < 3 →
        365 * (ofDays n).years + (ofDays n).days < 1460) := by
  simp only [ofDays]
  omega

theorem sum_eq (n : Int) :
    146097 * (ofDays n).cycles + 36524 * (ofDays n).centuries + 1461 * (ofDays n).quads +
      365 * (ofDays n).years + (ofDays n).days = n := by
  simp only [ofDays]
  omega

/-- A year is as long as the days that are left when the years are cut off. -/
theorem days_lt (n : Int) :
    (ofDays n).days.toNat < if isLeap (ofDays n).year then 366 else 365 := by
  obtain ⟨hc, hq, hy, hd, hshort, hlast⟩ := bounds n
  split
  · omega
  · next h =>
    have := days_lt_of_not_isLeap hc hq hy hshort hlast h
    omega

/-- The year that is found begins as many days before the day as are left. -/
theorem daysBeforeYear_year (n : Int) :
    daysBeforeYear (ofDays n).year + (ofDays n).days.toNat = n := by
  obtain ⟨hc, hq, hy, hd, _⟩ := bounds n
  have := sum_eq n
  rw [year, daysBeforeYear_of_cycles hc hq hy]
  omega

end Cycles

/-- The date of a day count. -/
def ofDays (n : Int) : Date :=
  let cycles := Cycles.ofDays (n - dayBeforeYears - 1)
  let found := locate 1 (monthLengths cycles.year) cycles.days.toNat
  ⟨cycles.year, found.1, found.2, by
    obtain ⟨h, h', h'', _⟩ := locate_spec _ _ (totalDays_year cycles.year ▸ Cycles.days_lt _) 1
    exact ⟨h, h', h''⟩⟩

/-- The day count of the date of a day count is that count. -/
@[simp] theorem toDays_ofDays (n : Int) : (ofDays n).toDays = n := by
  have hlt := Cycles.days_lt (n - dayBeforeYears - 1)
  have h := (locate_spec _ _ (totalDays_year _ ▸ hlt) 1).2.2.2
  have h' := Cycles.daysBeforeYear_year (n - dayBeforeYears - 1)
  simp only [toDays, ofDays]
  omega

/-! ## Text -/

/-- The digits of a number, with zeros in front up to the width. -/
def padded (width n : Nat) : List Char :=
  (Nat.toDigits 10 n).leftpad width '0'

/-- A year: four digits, and a sign when it is negative or has more of them. -/
def yearCharacters (year : Int) : List Char :=
  if 0 ≤ year ∧ year ≤ 9999 then padded 4 year.toNat
  else (if 0 ≤ year then '+' else '-') :: padded 4 year.natAbs

/-- Year, month and day, joined by hyphens. -/
def characters (d : Date) : List Char :=
  yearCharacters d.year ++ '-' :: padded 2 d.month ++ '-' :: padded 2 d.day

/-- Year, month and day, joined by hyphens. -/
def text (d : Date) : String :=
  String.ofList d.characters

/-- Reads the digits in front, at most as many as the width when there is one, after any blanks. -/
def readNumber? (width : Option Nat) (s : List Char) : Option (Nat × List Char) :=
  let digits := s.takeWhile Char.isDigit
  let digits := match width with
    | some w => digits.take w
    | none => digits
  if digits.isEmpty then none
  else some (Nat.ofDigitChars 10 digits 0, s.drop digits.length)

/-- Reads the year in front: four digits at most unless it has a sign. -/
def readYear? (s : List Char) : Option (Int × List Char) :=
  match s with
  | '-' :: s => (readNumber? none s).map fun (n, rest) => (-(n : Int), rest)
  | '+' :: s => (readNumber? none s).map fun (n, rest) => ((n : Int), rest)
  | s => (readNumber? (some 4) s).map fun (n, rest) => ((n : Int), rest)

/-- The years that can be read. -/
def readableYears : Int × Int := (-262143, 262142)

/-- Reads a hyphen and a number of at most two digits. -/
def readPart? (s : List Char) : Option (Nat × List Char) :=
  match s with
  | '-' :: s => readNumber? (some 2) (s.dropWhile Text.isBlank)
  | _ => none

/-- Reads year, month and day, joined by hyphens; blanks may stand in front of each. -/
def read? (s : String) : Option Date := do
  let (year, rest) ← readYear? (s.toList.dropWhile Text.isBlank)
  let (month, rest) ← readPart? rest
  let (day, rest) ← readPart? rest
  guard (rest.isEmpty && readableYears.1 ≤ year && year ≤ readableYears.2)
  ofParts? year month day

end Date

end ConventionalRelease
