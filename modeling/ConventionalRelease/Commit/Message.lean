import ConventionalRelease.Config.Basic

/-!
# Commit messages

A commit message taken apart: its type, scope and description from the header, the body, whether it
breaks something, and what its footers say under the names they are kept by.
-/

namespace ConventionalRelease

/-- A commit message taken apart. -/
structure CommitMessage where
  /-- The type; empty when the header has another form. -/
  type : String := ""
  /-- The scope; empty when there is none. -/
  scope : String := ""
  /-- The description, or the whole header when it has another form. -/
  description : String := ""
  /-- The body without carriage returns. -/
  body : String := ""
  /-- Whether the commit breaks something. -/
  breaking : Bool := false
  /-- The values of the footers under the names they are kept by. -/
  metadata : Dictionary String := ∅
  deriving DecidableEq, Inhabited

namespace CommitMessage

/-- A message from its parts; an empty issue and an empty breaking message are left out. -/
def ofParts (type scope description body issue breakingMessage : String) : CommitMessage :=
  let withIssue := if issue = "" then ∅ else Dictionary.empty.insert issueName issue
  { type, scope, description, body
    breaking := breakingMessage ≠ ""
    metadata := if breakingMessage = "" then withIssue
      else withIssue.insert breakingName breakingMessage }

/-- The issue the message refers to. -/
def issue? (m : CommitMessage) : Option String :=
  m.metadata.get? issueName

/-- What the message says of the change that breaks something. -/
def breakingMessage? (m : CommitMessage) : Option String :=
  m.metadata.get? breakingName

end CommitMessage

/-- A commit as it is read from a repository. -/
structure RawCommit where
  /-- The day of the author's clock, as year, month and day. -/
  date : String
  /-- The seconds since the epoch at which it was authored. -/
  timestamp : Int
  /-- The name of the author. -/
  author : String
  hash : String
  /-- The first paragraph of the message, on one line. -/
  subject : String
  /-- The rest of the message. -/
  body : String
  deriving DecidableEq, Repr, Inhabited

/-- A commit with its message taken apart. -/
structure LogEntry where
  /-- The day of the author's clock, as year, month and day. -/
  date : String
  /-- The seconds since the epoch at which it was authored. -/
  timestamp : Int
  /-- The name of the author. -/
  author : String
  hash : String
  message : CommitMessage
  deriving DecidableEq, Inhabited

end ConventionalRelease
