import ConventionalRelease.Dictionary

/-!
# Configuration

What can be set: which commit types call for which release, how tags are named, the sections of a
release note, which branches carry issue ids and which are exempt from checks, and the rules for
commit messages. The `Inhabited` value of each part is its default.
-/

namespace ConventionalRelease

/-- Which commit types call for which release. -/
structure VersioningRules where
  /-- The types that call for a major release. -/
  major : List String := []
  /-- The types that call for a minor release. -/
  minor : List String := ["feat"]
  /-- The types that call for a patch release. -/
  patch : List String :=
    ["build", "ci", "chore", "docs", "fix", "perf", "refactor", "style", "test"]
  /-- Whether a type that is not known calls for no release at all. -/
  ignoreUnknown : Bool := false
  deriving DecidableEq, Repr, Inhabited

/-- Whether a commit of an unknown type calls for a patch release. -/
def VersioningRules.unknownAsPatch (rules : VersioningRules) : Bool :=
  !rules.ignoreUnknown

/-- How tags are named, and which tags count. -/
structure TagRules where
  /-- The name of a tag, with placeholders for the version or its components. -/
  pattern : String := "\x7bmajor\x7d.\x7bminor\x7d.\x7bpatch\x7d"
  /-- The glob that a tag has to match; an empty one admits every tag. -/
  filter : String := ""
  deriving DecidableEq, Repr, Inhabited

/-- What a section of a release note collects. -/
inductive SectionKind where
  /-- The commits of some types. -/
  | commits
  /-- The messages of breaking changes. -/
  | breakingChanges
  deriving DecidableEq, Repr, Inhabited

/-- A section of a release note. -/
structure SectionRule where
  name : String
  /-- What the section collects. -/
  kind : SectionKind
  /-- The types of the commits it collects. -/
  commitTypes : List String := []
  deriving DecidableEq, Repr, Inhabited

/-- The sections of a release note that are there unless others are configured. -/
def defaultSections : List SectionRule :=
  [{ name := "Features", kind := .commits, commitTypes := ["feat"] },
    { name := "Bug Fixes", kind := .commits, commitTypes := ["fix"] },
    { name := "Breaking Changes", kind := .breakingChanges }]

/-- Which branches carry issue ids, and on which the message check is skipped. -/
structure BranchRules where
  /-- The pattern of what stands before the issue id. -/
  before : String := "([a-z]+\\/)?"
  /-- The pattern of what stands after the issue id. -/
  after : String := "(-.*)?"
  /-- Whether branch names carry no issue ids. -/
  disableIssue : Bool := false
  /-- The branches on which the check is skipped. -/
  skip : List String := ["master", "main", "developer"]
  /-- Whether the check is skipped when no branch is checked out. -/
  skipDetached : Bool := false
  deriving DecidableEq, Repr, Inhabited

/-- The pattern of a branch name that carries an issue id: the id is a group of its own. -/
def BranchRules.issuePattern (rules : BranchRules) (issue : String) : String :=
  "^" ++ rules.before ++ "(" ++ issue ++ ")" ++ rules.after ++ "$"

/-- How a footer of a commit message is written. -/
structure FooterStyle where
  /-- The key that is written. -/
  key : String := ""
  /-- Further keys that are read. -/
  synonyms : List String := []
  /-- Whether the value follows a number sign instead of a colon. -/
  useHash : Bool := false
  /-- What a written value has to start with. -/
  valuePrefix : String := ""
  deriving DecidableEq, Repr, Inhabited

/-- The keys that are read: the written one first. -/
def FooterStyle.keys (style : FooterStyle) : List String :=
  style.key :: style.synonyms

/-- The name under which the issue of a commit is kept. -/
def issueName : String := "issue"

/-- The name under which the message of a breaking change is kept. -/
def breakingName : String := "breaking-change"

/-- The rules for commit messages. -/
structure MessageRules where
  /-- The known commit types. -/
  types : List String :=
    ["build", "ci", "chore", "docs", "feat", "fix", "perf", "refactor", "revert", "style", "test"]
  /-- The pattern that finds the header in the subject. -/
  headerSelector : Option String := none
  /-- The scopes that may be given; an empty list admits every scope. -/
  scopes : List String := []
  /-- The footers by the name under which their values are kept. -/
  footers : Dictionary FooterStyle :=
    Dictionary.empty.insert issueName { key := "jira", synonyms := ["Jira", "JIRA"] }
  /-- The pattern of an issue id. -/
  issuePattern : String := "[A-Z]+-[0-9]+"
  deriving DecidableEq, Inhabited

namespace MessageRules

/-- The header selector that is in force: an empty one is none. -/
def selector? (rules : MessageRules) : Option String :=
  rules.headerSelector.filter (· != "")

/-- The style of the issue footer, if it has a key. -/
def issueStyle? (rules : MessageRules) : Option FooterStyle :=
  (rules.footers.get? issueName).filter (·.key != "")

end MessageRules

/-- A configuration. -/
structure Config where
  /-- The edition of the configuration format. -/
  version : String := "1.1"
  /-- How much is logged. -/
  logLevel : Option String := none
  /-- Which commit types call for which release. -/
  versioning : VersioningRules := {}
  /-- How tags are named. -/
  tag : TagRules := {}
  /-- The sections of a release note. -/
  sections : List SectionRule := defaultSections
  /-- The rules for branches. -/
  branches : BranchRules := {}
  /-- The rules for commit messages. -/
  messages : MessageRules := {}
  deriving DecidableEq, Inhabited

end ConventionalRelease
