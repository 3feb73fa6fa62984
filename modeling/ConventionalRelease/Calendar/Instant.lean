import ConventionalRelease.Calendar.Date

/-!
# Instants

An instant is a number of seconds since the first of January 1970, without leap seconds. It falls on
a day and has a text of date and time of day.
-/

namespace ConventionalRelease

/-- A number of seconds since the beginning of 1970, in universal time. -/
structure Instant where
  seconds : Int
  deriving DecidableEq, Repr, Inhabited

namespace Instant

/-- The seconds of a day. -/
def secondsPerDay : Int := 86400

/-- The day count of the day on which the instant falls. -/
def dayCount (t : Instant) : Int :=
  t.seconds / secondsPerDay

/-- The day on which the instant falls. -/
def date (t : Instant) : Date :=
  .ofDays t.dayCount

/-- The first instant of the day with the day count. -/
def ofDayCount (n : Int) : Instant :=
  ⟨n * secondsPerDay⟩

/-- The instant at which the minute began. -/
def minute (t : Instant) : Instant :=
  ⟨t.seconds / 60 * 60⟩

/-- The seconds since the day began. -/
def secondOfDay (t : Instant) : Nat :=
  (t.seconds % secondsPerDay).toNat

/-- Date and time of day, with the mark of universal time. -/
def characters (t : Instant) : List Char :=
  let s := t.secondOfDay
  t.date.characters ++ 'T' :: Date.padded 2 (s / 3600) ++ ':' :: Date.padded 2 (s / 60 % 60) ++
    ':' :: Date.padded 2 (s % 60) ++ ['Z']

/-- Date and time of day, with the mark of universal time. -/
def text (t : Instant) : String :=
  String.ofList t.characters

/-- The first and the last instant that there are. -/
def bounds : Int × Int := (-8334601228800, 8210266876799)

/-- The instant of a number of seconds and nanoseconds. A leap second is given as the one before it
with more than a second of nanoseconds, and there is none but at the end of a minute. -/
def ofParts? (seconds : Int) (nanoseconds : Int) : Option Instant :=
  if bounds.1 ≤ seconds ∧ seconds ≤ bounds.2 ∧ 0 ≤ nanoseconds ∧
      (nanoseconds < 1000000000 ∨ (nanoseconds < 2000000000 ∧ seconds % 60 = 59)) then
    some ⟨seconds⟩
  else none

end Instant

end ConventionalRelease
