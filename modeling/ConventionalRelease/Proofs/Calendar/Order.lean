import ConventionalRelease.Calendar.Instant
import Mathlib.Data.List.GetD

/-!
# The order of days

Days are ordered by year, month and day of the month, and every day has a next one. Counting days
keeps this order (`Date.toDays_le_iff`) and leaves out no day (`Date.toDays_next`), at the ends of
months and years and in years of any length, before 1970 as well as after. So an instant falls on a
day or a later one exactly if it is not before the first instant of that day
(`Instant.le_date_iff`).
-/

namespace ConventionalRelease

/-! ## Years and months -/

/-- A year is as long as its months. -/
theorem daysBeforeYear_succ (year : Int) :
    daysBeforeYear (year + 1) = daysBeforeYear year + totalDays (monthLengths year) := by
  rw [totalDays_year, daysBeforeYear, daysBeforeYear, isLeap]
  split
  · next h =>
    simp only [Bool.and_eq_true, Bool.or_eq_true, decide_eq_true_eq] at h
    omega
  · next h =>
    simp only [Bool.and_eq_true, Bool.or_eq_true, decide_eq_true_eq] at h
    omega

/-- A later year does not begin earlier. -/
theorem daysBeforeYear_le {a b : Int} (h : a ≤ b) : daysBeforeYear a ≤ daysBeforeYear b := by
  simp only [daysBeforeYear]
  omega

/-- One more month adds its length. -/
theorem totalDays_take_succ (lengths : List Nat) (i : Nat) :
    totalDays (lengths.take (i + 1)) = totalDays (lengths.take i) + lengths.getD i 0 := by
  induction lengths generalizing i with
  | nil => simp [totalDays]
  | cons length lengths ih =>
    cases i with
    | zero => simp [totalDays]
    | succ i =>
      have hrest := ih i
      simp only [List.take_succ_cons, totalDays, List.getD_cons_succ] at hrest ⊢
      omega

/-- More months are not shorter. -/
theorem totalDays_take_le (lengths : List Nat) {i j : Nat} (h : i ≤ j) :
    totalDays (lengths.take i) ≤ totalDays (lengths.take j) := by
  induction h with
  | refl => exact Nat.le_refl _
  | step _ ih =>
    rw [totalDays_take_succ]
    omega

namespace Date

/-! ## Days of a year -/

/-- A year has twelve months. -/
theorem month_le (d : Date) : d.month ≤ 12 := by
  obtain ⟨-, hpos, hle⟩ := d.valid
  refine Nat.le_of_not_lt fun h => ?_
  have hlength : monthLength d.year d.month = 0 := by
    rw [monthLength, List.getD_eq_default]
    show 12 ≤ d.month - 1
    omega
  omega

/-- Every month has a first day. -/
theorem one_le_monthLength (year : Int) {month : Nat} (h : month ≤ 12) :
    1 ≤ monthLength year month := by
  have hlengths : ∀ length ∈ monthLengths year, 1 ≤ length := by
    rw [monthLengths]
    cases isLeap year <;> decide
  have hlt : month - 1 < (monthLengths year).length := by
    show month - 1 < 12
    omega
  rw [monthLength, List.getD_eq_getElem _ _ hlt]
  exact hlengths _ (List.getElem_mem hlt)

/-- No month is longer than 31 days. -/
theorem monthLength_le (year : Int) (month : Nat) : monthLength year month ≤ 31 := by
  have hlengths : ∀ length ∈ monthLengths year, length ≤ 31 := by
    rw [monthLengths]
    cases isLeap year <;> decide
  by_cases hlt : month - 1 < (monthLengths year).length
  · rw [monthLength, List.getD_eq_getElem _ _ hlt]
    exact hlengths _ (List.getElem_mem hlt)
  · rw [monthLength, List.getD_eq_default _ _ (Nat.le_of_not_lt hlt)]
    exact Nat.zero_le 31

/-- Which day of its year a day is, from 1 on. -/
def dayOfYear (d : Date) : Nat :=
  totalDays ((monthLengths d.year).take (d.month - 1)) + d.day

/-- Days are counted in years before the year, and then in days of it. -/
theorem toDays_eq (d : Date) : d.toDays = dayBeforeYears + daysBeforeYear d.year + d.dayOfYear := by
  rw [toDays, dayOfYear, Int.natCast_add, ← Int.add_assoc]

/-- A day is in its month. -/
theorem dayOfYear_le_of_month (d : Date) :
    d.dayOfYear ≤ totalDays ((monthLengths d.year).take d.month) := by
  obtain ⟨hmonth, -, hle⟩ := d.valid
  obtain ⟨i, hi⟩ := Nat.exists_eq_add_of_le' hmonth
  rw [monthLength] at hle
  rw [dayOfYear, hi, totalDays_take_succ]
  rw [hi] at hle
  exact Nat.add_le_add_left hle _

/-- A day is in its year. -/
theorem dayOfYear_le (d : Date) : d.dayOfYear ≤ totalDays (monthLengths d.year) := by
  have h := Nat.le_trans d.dayOfYear_le_of_month (totalDays_take_le _ d.month_le)
  rwa [List.take_of_length_le (Nat.le_refl 12)] at h

/-! ## The order -/

/-- A day is before another by the year, in one year by the month, and in one month by the day. -/
instance : LT Date where
  lt a b := a.year < b.year ∨ a.year = b.year ∧
    (a.month < b.month ∨ a.month = b.month ∧ a.day < b.day)

/-- A day is not after another if it is before it or has the same parts. -/
instance : LE Date where
  le a b := a.year < b.year ∨ a.year = b.year ∧
    (a.month < b.month ∨ a.month = b.month ∧ a.day ≤ b.day)

instance (a b : Date) : Decidable (a ≤ b) :=
  inferInstanceAs (Decidable (_ ∨ _))

theorem lt_iff {a b : Date} : a < b ↔ a.year < b.year ∨ a.year = b.year ∧
    (a.month < b.month ∨ a.month = b.month ∧ a.day < b.day) := Iff.rfl

theorem le_iff {a b : Date} : a ≤ b ↔ a.year < b.year ∨ a.year = b.year ∧
    (a.month < b.month ∨ a.month = b.month ∧ a.day ≤ b.day) := Iff.rfl

/-- What is not after a day is before it or not. -/
theorem not_le {a b : Date} : ¬ a ≤ b ↔ b < a := by
  rw [le_iff, lt_iff]
  omega

/-- A day that is not after another is before it or is that day. -/
theorem lt_or_eq_of_le {a b : Date} (h : a ≤ b) : a < b ∨ a = b := by
  obtain ⟨year, month, day, _⟩ := a
  obtain ⟨year', month', day', _⟩ := b
  rw [le_iff] at h
  rw [lt_iff, mk.injEq]
  dsimp only at h ⊢
  omega

/-- An earlier day has a smaller count. -/
theorem toDays_lt_of_lt {a b : Date} (h : a < b) : a.toDays < b.toDays := by
  rw [toDays_eq, toDays_eq]
  obtain hyear | ⟨hyear, hrest⟩ := lt_iff.1 h
  · have ha := a.dayOfYear_le
    have hb : 1 ≤ b.dayOfYear := Nat.le_trans b.valid.2.1 (Nat.le_add_left _ _)
    have hnext := daysBeforeYear_le (show a.year + 1 ≤ b.year from hyear)
    rw [daysBeforeYear_succ] at hnext
    omega
  · have hday : a.dayOfYear < b.dayOfYear := by
      obtain hmonth | ⟨hmonth, hday⟩ := hrest
      · have ha := a.dayOfYear_le_of_month
        have hb := totalDays_take_le (monthLengths b.year) (show a.month ≤ b.month - 1 by omega)
        have hpos := b.valid.2.1
        have hcut : b.dayOfYear = totalDays ((monthLengths b.year).take (b.month - 1)) + b.day :=
          rfl
        rw [hyear] at ha
        omega
      · rw [dayOfYear, dayOfYear, hyear, hmonth]
        omega
    rw [hyear]
    omega

/-- Day counts are in the order of days. -/
theorem toDays_le_iff {a b : Date} : a.toDays ≤ b.toDays ↔ a ≤ b := by
  constructor
  · intro h
    refine Classical.not_not.1 fun hnot => ?_
    exact absurd (toDays_lt_of_lt (not_le.1 hnot)) (Int.not_lt.2 h)
  · intro h
    obtain hlt | rfl := lt_or_eq_of_le h
    · exact Int.le_of_lt (toDays_lt_of_lt hlt)
    · exact Int.le_refl _

/-- Days are in line. -/
theorem le_trans {a b c : Date} (hab : a ≤ b) (hbc : b ≤ c) : a ≤ c :=
  toDays_le_iff.1 (Int.le_trans (toDays_le_iff.2 hab) (toDays_le_iff.2 hbc))

/-- Two days have different counts. -/
theorem eq_of_toDays_eq {a b : Date} (h : a.toDays = b.toDays) : a = b := by
  obtain hlt | heq := lt_or_eq_of_le (toDays_le_iff.1 (Int.le_of_eq h))
  · exact absurd h (Int.ne_of_lt (toDays_lt_of_lt hlt))
  · exact heq

/-- The date of the count of a day is that day. -/
@[simp] theorem ofDays_toDays (d : Date) : ofDays d.toDays = d :=
  eq_of_toDays_eq (toDays_ofDays _)

/-! ## The next day -/

/-- The next day: in the same month, or the first of the next month or of the next year. -/
def next (d : Date) : Date :=
  if hday : d.day < monthLength d.year d.month then
    ⟨d.year, d.month, d.day + 1, d.valid.1, Nat.succ_pos _, hday⟩
  else if hmonth : d.month < 12 then
    ⟨d.year, d.month + 1, 1, Nat.succ_pos _, Nat.le_refl 1, one_le_monthLength d.year hmonth⟩
  else
    ⟨d.year + 1, 1, 1, Nat.le_refl 1, Nat.le_refl 1, one_le_monthLength (d.year + 1) (by decide)⟩

/-- The next day has the next count. -/
theorem toDays_next (d : Date) : d.next.toDays = d.toDays + 1 := by
  obtain ⟨hmonth, -, hle⟩ := d.valid
  obtain ⟨i, hi⟩ := Nat.exists_eq_add_of_le' hmonth
  rw [toDays_eq, toDays_eq, next]
  split
  · simp only [dayOfYear]
    omega
  · have hlast : d.day = monthLength d.year d.month := by omega
    have hend : d.dayOfYear = totalDays ((monthLengths d.year).take d.month) := by
      rw [dayOfYear, hlast, monthLength, hi, totalDays_take_succ]
      rfl
    split
    · simp only [dayOfYear, Nat.add_sub_cancel] at hend ⊢
      omega
    · have htwelve : d.month = 12 := by
        have := d.month_le
        omega
      rw [htwelve, List.take_of_length_le (Nat.le_refl 12)] at hend
      rw [hend, daysBeforeYear_succ]
      simp only [dayOfYear, Nat.sub_self, List.take_zero, totalDays]
      omega

/-- No day is between a day and the next. -/
theorem next_le_iff {a b : Date} : a.next ≤ b ↔ ¬ b ≤ a := by
  rw [← toDays_le_iff, ← toDays_le_iff, toDays_next]
  omega

end Date

/-! ## Instants of a day -/

namespace Instant

variable {t : Instant} {d : Date}

/-- An instant falls on a day or a later one if it is not before the first instant of that day. -/
theorem le_date_iff : d ≤ t.date ↔ (ofDayCount d.toDays).seconds ≤ t.seconds := by
  rw [← Date.toDays_le_iff, date, Date.toDays_ofDays]
  simp only [dayCount, ofDayCount, secondsPerDay]
  omega

/-- An instant falls on a day or an earlier one if it is before the first instant of the next
day. -/
theorem date_le_iff : t.date ≤ d ↔ t.seconds < (ofDayCount (d.toDays + 1)).seconds := by
  rw [← Date.toDays_le_iff, date, Date.toDays_ofDays]
  simp only [dayCount, ofDayCount, secondsPerDay]
  omega

end Instant

end ConventionalRelease
