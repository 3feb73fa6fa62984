import ConventionalRelease.Commit.Error
import ConventionalRelease.Commit.Footer
import ConventionalRelease.Commit.Header
import ConventionalRelease.Commit.Message

/-!
# The convention for commit messages

A `Convention` is a configuration's rules for commit messages with their patterns read. It takes
messages apart, checks them, completes them with the issue of the branch, and writes them.
-/

namespace ConventionalRelease

/-- The rules for commit messages, their patterns read. -/
structure Convention where
  types : List String
  /-- The allowed scopes; none means every scope. -/
  scopes : List String
  /-- Finds the header in a subject. -/
  selector : Option Pattern
  /-- The footers to look for, in the order of their names. -/
  footers : List FooterReader
  issueFooter : Option IssueFooter
  /-- The pattern of a branch name that carries an issue id. -/
  issuePattern : Option Pattern
  /-- The branches on which messages are not checked. -/
  skip : List String
  /-- Whether messages are not checked when no branch is checked out. -/
  skipDetached : Bool
  /-- Whether branch names carry no issue ids. -/
  disableIssue : Bool
  deriving DecidableEq, Inhabited

/-- A message written out: its header, its body and its footers. -/
structure FormattedMessage where
  header : String
  body : String
  footer : String
  deriving DecidableEq, Repr, Inhabited

/-- The first line of a message and the lines after it. -/
def splitMessage (message : String) : String × String :=
  match Text.lines message.toList with
  | [] => ("", "")
  | subject :: rest => (String.ofList subject, String.ofList (Text.join ['\n'] rest))

/-- The pattern of a branch name that carries an issue id, read; none if ids are not looked for. -/
def readIssuePattern (branches : BranchRules) (messages : MessageRules) :
    Except ConfigError (Option Pattern) :=
  match issuePattern? branches messages with
  | some pattern => some <$> Pattern.ofField issueField pattern
  | none => .ok none

/-- The issue id in a branch name: the second group of a pattern that has just three. -/
def issueIn? (pattern : Pattern) (branch : String) : Option String :=
  if pattern.groupCount = 3 then do
    let found ← pattern.search branch.toList
    let id ← found.group? 2
    return String.ofList id
  else none

namespace Convention

/-- Reads the patterns of the rules. -/
def ofRules (messages : MessageRules) (branches : BranchRules) : Except ConfigError Convention := do
  let selector ← messages.selector?.mapM readSelector
  let keyed := messages.footers.entries.filter (·.2.key != "")
  let footers ← keyed.mapM fun (name, style) => FooterReader.ofStyle name style
  let issueFooter ← messages.issueStyle?.mapM IssueFooter.ofStyle
  let issuePattern ← readIssuePattern branches messages
  return {
    types := messages.types
    scopes := messages.scopes
    selector, footers, issueFooter, issuePattern
    skip := branches.skip
    skipDetached := branches.skipDetached
    disableIssue := branches.disableIssue }

/-- Reads the patterns of a configuration. -/
def ofConfig (config : Config) : Except ConfigError Convention :=
  ofRules config.messages config.branches

/-- The header in a subject: what the selector's group finds, or the whole subject without one. -/
def header (c : Convention) (subject : String) : Except MessageError String :=
  match c.selector with
  | none => .ok subject
  | some pattern =>
    let found := do
      let index ← pattern.groupNamed? headerGroup
      (← pattern.search subject.toList).group? index
    match found with
    | some text => .ok (String.ofList text)
    | none => .error (.noHeader subject)

/-- The message whose header and body are given, its footers aside. A header of another form is the
description as it stands. -/
def ofHeader (header body : String) : CommitMessage :=
  match Header.parse? header.toList with
  | some h =>
    { type := String.ofList h.type
      scope := String.ofList h.scope
      description := String.ofList (Text.trim h.description)
      body
      breaking := h.marked }
  | none => { description := header, body }

/-- Records the footers of a body under their names. -/
def readFooters (c : Convention) (body : String) (metadata : Dictionary String) :
    Dictionary String :=
  c.footers.foldl (fun metadata reader =>
    match reader.value? body with
    | some value => metadata.insert reader.name value
    | none => metadata) metadata

/-- Records what breaks: the description of a marked message, unless a footer says it. -/
def recordBreaking (m : CommitMessage) : CommitMessage :=
  let m := if m.breaking then { m with metadata := m.metadata.insert breakingName m.description }
    else m
  match footer? breakingKey false m.body with
  | some value =>
    { m with breaking := true, metadata := m.metadata.insert breakingName value }
  | none => m

/-- Takes a message apart. -/
def parse (c : Convention) (subject body : String) : Except MessageError CommitMessage := do
  let header ← c.header subject
  let body := String.ofList (Text.dropReturns body.toList)
  let m := ofHeader header body
  return recordBreaking { m with metadata := c.readFooters body m.metadata }

/-- Checks a type. -/
def validateType (c : Convention) (type : String) : Except MessageError Unit :=
  if type = "" || type ∉ c.types then .error (.unknownType type c.types) else .ok ()

/-- Checks a scope. -/
def validateScope (c : Convention) (scope : String) : Except MessageError Unit :=
  if c.scopes ≠ [] && scope ∉ c.scopes then .error (.scopeNotAllowed scope c.scopes) else .ok ()

/-- Checks a whole message. -/
def validate (c : Convention) (message : String) : Except MessageError Unit := do
  let (subject, body) := splitMessage message
  let parsed ← c.parse subject body
  let header ← c.header subject
  if !Header.isPlausible header.toList then throw (.invalidSubject subject)
  c.validateType parsed.type
  c.validateScope parsed.scope
  if !startsLower parsed.description.toList then throw (.invalidDescription parsed.description)

/-- Whether messages are not checked on a branch. -/
def skipsBranch (c : Convention) (branch : String) (detached : Bool) : Bool :=
  branch ∈ c.skip || (c.skipDetached && detached)

/-- The issue id that a branch name carries. -/
def issueId? (c : Convention) (branch : String) : Option String :=
  c.issuePattern.bind (issueIn? · branch)

/-- The text to append to a message so that it refers to the issue of the branch; empty when there
is nothing to append. A message that has no footers yet gets a blank line before the first one. -/
def enhance (c : Convention) (branch message : String) : Except MessageError String :=
  if c.disableIssue then .ok "" else
    match c.issueFooter with
    | none => .ok ""
    | some footer =>
      if footer.isPresent message then .ok "" else
        match c.issueId? branch with
        | none => .error (.noIssue branch)
        | some issue =>
          if hasFooter message then .ok (footer.line issue)
          else .ok ("\n" ++ footer.line issue)

/-- Writes a message. -/
def format (c : Convention) (m : CommitMessage) : FormattedMessage :=
  let scope := if m.scope = "" then "" else "(" ++ m.scope ++ ")"
  let breaking := match m.breakingMessage? with
    | some value => if value = "" then [] else [breakingKey ++ ": " ++ value]
    | none => []
  let issue := match m.issue?, c.issueFooter with
    | some issue, some footer => [footer.line issue]
    | _, _ => []
  { header := m.type ++ scope ++ ": " ++ m.description
    body := m.body
    footer := "\n".intercalate (breaking ++ issue) }

/-- Takes the message of a commit apart. -/
def readCommit (c : Convention) (commit : RawCommit) : Except MessageError LogEntry := do
  let message ← c.parse commit.subject commit.body
  return {
    date := commit.date
    timestamp := commit.timestamp
    author := commit.author
    hash := commit.hash
    message }

/-- Takes the messages of a log apart. -/
def readLog (c : Convention) (commits : List RawCommit) : Except MessageError (List LogEntry) :=
  commits.mapM c.readCommit

end Convention

end ConventionalRelease
