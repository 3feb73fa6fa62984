import ConventionalRelease.History.Repository

/-!
# The log of a repository

The log of a range lists commits from the newest to the oldest. A range of revisions begins after
its start and ends with its end; a range of dates holds the commits that were made from the
beginning of the first day to the end of the last.
-/

namespace ConventionalRelease

/-- What the bounds of a range are. -/
inductive RangeKind where
  | tag
  | date
  | hash
  deriving DecidableEq, Repr, Inhabited

/-- The word for a kind of range. -/
def RangeKind.word : RangeKind → String
  | tag => "tag"
  | date => "date"
  | hash => "hash"

/-- The kind of range that a word stands for. -/
def RangeKind.ofWord? (s : String) : Option RangeKind :=
  [RangeKind.tag, .date, .hash].find? (·.word = s)

/-- A range of the log. -/
structure LogRange where
  /-- What the bounds are. -/
  kind : RangeKind
  /-- The bound before the oldest commit, or the first day. -/
  start : Option String := none
  /-- The newest commit, or the last day. -/
  stop : Option String := none
  deriving DecidableEq, Repr, Inhabited

/-- The range with the bounds; an empty bound is none. -/
def LogRange.of (kind : RangeKind) (start stop : Option String) : LogRange :=
  { kind, start := start.filter (· ≠ ""), stop := stop.filter (· ≠ "") }

namespace Repository

/-- The commits that one is based on and another is not, the newest first. -/
def between (lineage hidden : Lineage) : Lineage :=
  lineage.filter (· ∉ hidden)

/-- The commits up to the end of a range of revisions, without those up to its start. -/
def logOfRevisions (r : Repository) (start stop : Option String) : Except HistoryError Lineage := do
  let last ← r.resolve (stop.getD "HEAD")
  let hidden ← (start.mapM r.resolve : Except HistoryError (Option Descent))
  return between last.lineage ((hidden.map Descent.lineage).getD [])

/-- Reads a date as a day count. -/
def dayOf (text : String) : Except HistoryError Int :=
  match Date.read? text with
  | some d => .ok d.toDays
  | none => .error (.invalidDate text)

/-- Whether a commit was made from the beginning of the first day to the end of the last. -/
def isWithin (first last : Option Int) (c : Commit) : Bool :=
  first.all (fun d => (Instant.ofDayCount d).seconds ≤ c.time) &&
    last.all fun d => c.time < (Instant.ofDayCount (d + 1)).seconds

/-- The commits that were made within a range of dates. -/
def logOfDates (r : Repository) (start stop : Option String) : Except HistoryError Lineage := do
  let first ← start.mapM dayOf
  let last ← stop.mapM dayOf
  return r.checkedOut.filter (isWithin first last)

/-- The commits of a range, the newest first; none where no commit is checked out. -/
def commitsIn (r : Repository) (range : LogRange) : Except HistoryError Lineage :=
  if !r.hasCommits then .ok []
  else match range.kind with
    | .date => r.logOfDates range.start range.stop
    | .tag | .hash => r.logOfRevisions range.start range.stop

/-- The log of a range. -/
def log (r : Repository) (range : LogRange) : Except HistoryError (List RawCommit) := do
  let lineage ← r.commitsIn range
  return lineage.map Commit.raw

end Repository

end ConventionalRelease
