import ConventionalRelease.Document.Field
import ConventionalRelease.History.Repository

/-!
# Journals

A repository is the result of what was done in it: commits were made, tags and branches were put on
commits, and other commits were checked out. A journal lists these events from the first to the
last.
-/

namespace ConventionalRelease

/-- What was done in a repository. The commit at which it was done is given by a revision. -/
inductive Event where
  /-- A commit was made on what was checked out. -/
  | commit (commit : Commit)
  /-- A tag was put on something, at a time if there was a tagger. -/
  | tag (name : String) (time : Option Int) (target : String)
  /-- A name was given to something, without a tag in between. -/
  | mark (name target : String)
  /-- A name was given to files that are no commit. -/
  | markFiles (name : String)
  /-- A branch was begun. -/
  | branch (name target : String)
  /-- A branch was checked out, which may have no commits yet. -/
  | checkOut (name : String)
  /-- A commit was checked out. -/
  | detach (target : String)
  /-- It was forgotten who makes commits and tags. -/
  | forgetIdentity
  deriving DecidableEq, Repr, Inhabited

namespace Repository

/-- The repository in which nothing was done yet. -/
def initial : Repository := { head := .branch "main" }

/-- The branches with commits under a name, in place of those that were there. -/
def setBranch (branches : List (String × Descent)) (name : String) (descent : Descent) :
    List (String × Descent) :=
  (name, descent) :: branches.filter (·.1 ≠ name)

/-- The repository after a commit on what is checked out. -/
def afterCommit (r : Repository) (c : Commit) : Repository :=
  let descent : Descent := ⟨c, r.checkedOut⟩
  let r := { r with commits := descent :: r.commits }
  match r.head with
  | .branch name => { r with branches := setBranch r.branches name descent }
  | .detached _ => { r with head := .detached descent }

/-- The repository after an event, if its revision stands for what the event is about. -/
def after? (r : Repository) : Event → Option Repository
  | .commit c => some (r.afterCommit c)
  | .tag name time target => do
    return { r with tags := (name, .object time (← r.revision? target)) :: r.tags }
  | .mark name target => do
    return { r with tags := (name, ← r.revision? target) :: r.tags }
  | .markFiles name => some { r with tags := (name, .files) :: r.tags }
  | .branch name target => do
    return { r with branches := setBranch r.branches name (← (← r.revision? target).descent?) }
  | .checkOut name => some { r with head := .branch name }
  | .detach target => do
    return { r with head := .detached (← (← r.revision? target).descent?) }
  | .forgetIdentity => some { r with hasIdentity := false }

/-- The repository that a journal leads to. -/
def ofJournal? (journal : List Event) : Option Repository :=
  journal.foldlM after? initial

end Repository

/-! ## Journals as documents -/

namespace Document

/-- Reads a field that has to be there. -/
def required? {α : Type} (d : Document) (key : String) (read : Document → Option α) : Option α :=
  (d.at? [key]).bind read

/-- A time that may be missing. -/
def ofTime? : Option Int → Document
  | none => null
  | some time => int time

/-- Reads a time that may be missing. -/
def time? : Document → Option (Option Int)
  | null => some none
  | int time => some (some time)
  | _ => none

end Document

namespace Commit

/-- A commit as a document. -/
def toDocument (c : Commit) : Document :=
  .mapping [("hash", .text c.hash), ("author", .text c.author), ("time", .int c.time),
    ("offset", .int c.offset), ("message", .text c.message), ("committed", .int c.committed)]

/-- Reads a commit from a document. -/
def ofDocument? (d : Document) : Option Commit := do
  return {
    hash := ← d.required? "hash" Document.text?
    author := ← d.required? "author" Document.text?
    time := ← d.required? "time" Document.int?
    offset := ← d.required? "offset" Document.int?
    message := ← d.required? "message" Document.text?
    committed := ← d.required? "committed" Document.int? }

end Commit

namespace Event

/-- An event as a document: a mapping from the word for what was done to the rest. -/
def toDocument : Event → Document
  | commit c => .mapping [("commit", c.toDocument)]
  | tag name time target =>
    .mapping
      [("tag", .mapping [("name", .text name), ("time", .ofTime? time), ("at", .text target)])]
  | mark name target => .mapping [("mark", .mapping [("name", .text name), ("at", .text target)])]
  | markFiles name => .mapping [("mark-files", .text name)]
  | branch name target =>
    .mapping [("branch", .mapping [("name", .text name), ("at", .text target)])]
  | checkOut name => .mapping [("check-out", .text name)]
  | detach target => .mapping [("detach", .text target)]
  | forgetIdentity => .mapping [("forget-identity", .null)]

/-- Reads an event from the word for what was done and the rest. -/
def ofEntry? (word : String) (d : Document) : Option Event :=
  match word with
  | "commit" => commit <$> Commit.ofDocument? d
  | "tag" => do
    return tag (← d.required? "name" Document.text?) (← d.required? "time" Document.time?)
      (← d.required? "at" Document.text?)
  | "mark" => do
    return mark (← d.required? "name" Document.text?) (← d.required? "at" Document.text?)
  | "mark-files" => markFiles <$> d.text?
  | "branch" => do
    return branch (← d.required? "name" Document.text?) (← d.required? "at" Document.text?)
  | "check-out" => checkOut <$> d.text?
  | "detach" => detach <$> d.text?
  | "forget-identity" => some forgetIdentity
  | _ => none

/-- Reads an event from a document. -/
def ofDocument? : Document → Option Event
  | .mapping [(word, d)] => ofEntry? word d
  | _ => none

/-- Reading an event back gives that event. -/
theorem ofDocument?_toDocument (e : Event) : ofDocument? e.toDocument = some e := by
  have htime (time : Option Int) : Document.time? (.ofTime? time) = some time := by
    cases time <;> rfl
  cases e <;>
    simp [toDocument, ofDocument?, ofEntry?, Commit.toDocument, Commit.ofDocument?,
      Document.required?, Document.at?, Document.text?, Document.int?, htime, List.lookup_cons]

end Event

end ConventionalRelease
