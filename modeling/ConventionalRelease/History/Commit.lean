import ConventionalRelease.Calendar.Instant
import ConventionalRelease.Commit.Message
import ConventionalRelease.Text.Blank

/-!
# Commits of a repository

A commit holds its whole message. The log shows the first paragraph of it as the subject, on one
line, and what follows the next blank line as the body.
-/

namespace ConventionalRelease

/-- A commit of a repository. -/
structure Commit where
  hash : String
  /-- The name of the author. -/
  author : String
  /-- The seconds since the epoch at which the author made it. -/
  time : Int
  /-- By how many minutes the author's clock was ahead of universal time. -/
  offset : Int
  message : String
  /-- The seconds since the epoch at which it was committed. -/
  committed : Int := time
  deriving DecidableEq, Repr, Inhabited

/-- Commits, the newest first. -/
abbrev Lineage := List Commit

/-- A commit with those that it is based on. -/
structure Descent where
  /-- The commit. -/
  newest : Commit
  /-- The commits that it is based on, the newest first. -/
  earlier : Lineage
  deriving DecidableEq, Repr, Inhabited

namespace Descent

/-- The commit and those that it is based on. -/
def lineage (d : Descent) : Lineage := d.newest :: d.earlier

instance : CoeOut Descent Lineage := ⟨lineage⟩

/-- The newest of some commits, with those that it is based on; none if there is no commit. -/
def ofLineage? : Lineage → Option Descent
  | [] => none
  | c :: earlier => some ⟨c, earlier⟩

theorem lineage_ne_nil (d : Descent) : d.lineage ≠ [] := List.cons_ne_nil _ _

/-- What is read off a lineage has that lineage. -/
theorem ofLineage?_eq_some {lineage : Lineage} {d : Descent} :
    ofLineage? lineage = some d ↔ d.lineage = lineage := by
  cases lineage with
  | nil => exact ⟨nofun, fun h => absurd h d.lineage_ne_nil⟩
  | cons c earlier =>
    constructor
    · rintro ⟨⟩
      rfl
    · intro h
      cases h
      rfl

end Descent

namespace Commit

/-! ## Subject and body -/

/-- The message from its first character that is no line feed. -/
def text (c : Commit) : List Char :=
  c.message.toList.dropWhile (· = '\n')

/-- Whether the line is blank that begins the text. -/
def atBlankLine (s : List Char) : Bool :=
  match s.dropWhile fun c => c ≠ '\n' && Text.isAsciiBlank c with
  | [] => true
  | c :: _ => c = '\n'

/-- The first paragraph: it ends before a line feed that a blank line or the end follows. -/
def paragraph : List Char → List Char
  | [] => []
  | c :: rest => if c = '\n' && atBlankLine rest then [] else c :: paragraph rest

/-- The text on one line, after some blanks: blanks that a line feed is among become a space, and
blanks at the end are left out. -/
def onOneLineAfter (blanks : List Char) : List Char → List Char
  | [] => []
  | c :: rest =>
    if Text.isAsciiBlank c then onOneLineAfter (blanks ++ [c]) rest
    else (if blanks.contains '\n' then [' '] else blanks) ++ c :: onOneLineAfter [] rest

/-- The subject: the first paragraph on one line. -/
def subject (c : Commit) : String :=
  String.ofList (onOneLineAfter [] (paragraph c.text))

/-- What begins at the first line feed that another one or the end follows. -/
def afterParagraph : List Char → List Char
  | [] => []
  | c :: rest =>
    if c = '\n' && rest.head?.all (· = '\n') then c :: rest else afterParagraph rest

/-- The body: what follows the first empty line, without blanks around it. -/
def body (c : Commit) : String :=
  String.ofList (Text.trimEnd (Text.dropAround Text.isAsciiBlank (afterParagraph c.text)))

/-! ## The log -/

/-- The instant at which the author made the commit. -/
def instant? (c : Commit) : Option Instant :=
  Instant.ofParts? c.time 0

/-- How many characters of a hash are shown. -/
def shownHash : Nat := 7

/-- How many minutes a clock may differ from universal time. -/
def greatestOffset : Int := 1439

/-- The day of the author's clock; of the universal one, where no clock differs as much. -/
def dateText (c : Commit) : String :=
  let offset := if -greatestOffset ≤ c.offset && c.offset ≤ greatestOffset then c.offset else 0
  match c.instant? with
  | some t => (Instant.mk (t.seconds + 60 * offset)).date.text
  | none => ""

/-- The commit as the log shows it. -/
def raw (c : Commit) : RawCommit :=
  { date := c.dateText
    timestamp := c.time
    author := c.author
    hash := String.ofList (c.hash.toList.take shownHash)
    subject := c.subject
    body := c.body }

end Commit

end ConventionalRelease
