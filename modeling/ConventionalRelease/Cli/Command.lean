import ConventionalRelease.Cli.Arguments
import ConventionalRelease.History.Range
import ConventionalRelease.Version.Reader

/-!
# Commands

A command line names a command by its word or its short word. The options for all commands can stand
before the word or after it; the last of them that has a value counts.
-/

namespace ConventionalRelease.Cli

/-- The format of the output. -/
inductive Format where
  /-- A text for people. -/
  | text
  /-- A document in JSON. -/
  | json
  deriving DecidableEq, Repr, Inhabited

/-- The format that a word stands for. -/
def Format.ofWord? (word : String) : Option Format :=
  if word = "text" then some text else if word = "json" then some json else none

/-- What can be set for all commands. -/
structure Settings where
  /-- Whether to say more. -/
  verbose : Bool := false
  /-- Whether to say nothing but the result and errors. -/
  quiet : Bool := false
  /-- The format of the output. -/
  format : Format := .text
  /-- The directory to go to first. -/
  directory : Option String := none
  deriving DecidableEq, Repr, Inhabited

/-- A range of the log as it is asked for. -/
structure RangeChoice where
  /-- What the bounds are. -/
  kind : RangeKind := .tag
  start : Option String := none
  stop : Option String := none
  deriving DecidableEq, Repr, Inhabited

/-- Which commits to list. -/
inductive LogChoice where
  /-- Those of a tag, since the tag before it. -/
  | ofTag (name : String)
  /-- Those of a range. -/
  | ofRange (range : RangeChoice)
  deriving DecidableEq, Repr, Inhabited

/-- What a changelog is to hold. -/
structure ChangelogChoice where
  /-- How many of the last tags. -/
  size : Nat := 10
  all : Bool := false
  /-- Whether the next version. -/
  withNext : Bool := false
  /-- Whether tags of versions only. -/
  versionsOnly : Bool := false
  deriving DecidableEq, Repr, Inhabited

/-- A command for a repository with its configuration. -/
inductive ProjectCommand where
  /-- Shows the current version. -/
  | currentVersion
  /-- Shows the next version. -/
  | nextVersion
  | commitLog (choice : LogChoice)
  /-- Writes a note for a range of commits, to a file if one is given. -/
  | commitNotes (range : RangeChoice) (output : Option String)
  /-- Writes the release note for a tag or the next version, to a file if one is given. -/
  | releaseNotes (tag output : Option String)
  /-- Writes a changelog, to a file if one is given. -/
  | changelog (choice : ChangelogChoice) (output : Option String)
  /-- Makes the tag of the next version, or only shows it. -/
  | tag (dryRun : Bool)
  /-- Checks and completes the commit message in a file of a directory. -/
  | checkMessage (directory file : String) (source : Option String)
  deriving DecidableEq, Repr, Inhabited

/-- A command. -/
inductive Command where
  /-- Shows the default configuration. -/
  | showDefaults
  | showConfig
  /-- Does something for the repository. -/
  | project (command : ProjectCommand)
  deriving DecidableEq, Repr, Inhabited

/-- A command with its settings. -/
structure Invocation where
  settings : Settings
  command : Command
  deriving DecidableEq, Repr, Inhabited

/-! ## Settings -/

/-- The options for all commands. -/
def settingRules : List OptionRule :=
  [{ name := "verbose", letter := 'v', takesValue := false },
    { name := "quiet", letter := 'q', takesValue := false },
    { name := "format" },
    { name := "directory", letter := 'C' }]

/-- The settings that were given, the last first. -/
def Settings.ofGiven? (given : List GivenOption) : Option Settings := do
  let formats := given.filter (·.name = "format")
  let directories := given.filter (·.name = "directory")
  guard (formats.all fun g => (Format.ofWord? g.value).isSome)
  guard (directories.all fun g => g.value ≠ "")
  return {
    verbose := isGiven given "verbose"
    quiet := isGiven given "quiet"
    format := ((formats.head?.bind fun g => Format.ofWord? g.value).getD .text)
    directory := directories.head?.map (·.value) }

/-! ## Commands -/

/-- A path that was given, which is not empty. -/
def path? (given : List GivenOption) (name : String) : Option (Option String) :=
  match value? given name with
  | some "" => none
  | value => some value

/-- The options for a range of commits. -/
def rangeRules : List OptionRule :=
  [{ name := "range", letter := 'r' }, { name := "start", letter := 's' },
    { name := "end", letter := 'e' }]

/-- The range that was given. -/
def RangeChoice.ofGiven? (given : List GivenOption) : Option RangeChoice := do
  let kind ← match value? given "range" with
    | some word => RangeKind.ofWord? word
    | none => some .tag
  return { kind, start := value? given "start", stop := value? given "end" }

/-- The choice of commits that was given: by a tag or by a range. -/
def LogChoice.ofGiven? (given : List GivenOption) : Option LogChoice := do
  let range ← RangeChoice.ofGiven? given
  match value? given "tag" with
  | none => return ofRange range
  | some name =>
    guard !(rangeRules.any fun rule => isGiven given rule.name)
    return ofTag name

/-- The options for a changelog. -/
def changelogRules : List OptionRule :=
  [{ name := "size", letter := 'n' }, { name := "all", takesValue := false },
    { name := "add-next-version", takesValue := false },
    { name := "semantic-version-only", takesValue := false }]

/-- The choice for a changelog that was given. -/
def ChangelogChoice.ofGiven? (given : List GivenOption) : Option ChangelogChoice := do
  let size ← match value? given "size" with
    | some text => (Version.plainNumber? text.toList).map (·.toNat)
    | none => some 10
  return {
    size
    all := isGiven given "all"
    withNext := isGiven given "add-next-version"
    versionsOnly := isGiven given "semantic-version-only" }

/-- The option for a file to write to. -/
def outputRule : OptionRule := { name := "output", letter := 'o' }

/-- How a command is written: its words, its options, and what it is with the options that were
given. -/
structure CommandRule where
  /-- The words for it. -/
  words : List String
  rules : List OptionRule := []
  /-- The command with the options that were given. -/
  command? : List GivenOption → Option Command

/-- The rule for a command for a repository. -/
def CommandRule.ofProject (words : List String) (rules : List OptionRule)
    (command? : List GivenOption → Option ProjectCommand) : CommandRule :=
  { words, rules, command? := fun given => .project <$> command? given }

/-- The commands that show a configuration, by the word that follows the one for configurations. -/
def configRules : List CommandRule :=
  [{ words := ["default"], command? := fun _ => some .showDefaults },
    { words := ["show"], command? := fun _ => some .showConfig }]

/-- The words for configurations. -/
def configWords : List String := ["config", "cfg"]

/-- The commands of one word, which are for a repository. -/
def projectRules : List CommandRule :=
  [.ofProject ["current-version", "cv"] [] fun _ => some .currentVersion,
    .ofProject ["next-version", "nv"] [] fun _ => some .nextVersion,
    .ofProject ["commit-log", "cl"] ({ name := "tag", letter := 't' } :: rangeRules) fun given =>
      .commitLog <$> LogChoice.ofGiven? given,
    .ofProject ["commit-notes", "cn"] (outputRule :: rangeRules) fun given => do
      return .commitNotes (← RangeChoice.ofGiven? given) (← path? given "output"),
    .ofProject ["release-notes", "rn"] [{ name := "tag", letter := 't' }, outputRule] fun given =>
      .releaseNotes (value? given "tag") <$> path? given "output",
    .ofProject ["changelog", "cgl"] (outputRule :: changelogRules) fun given => do
      return .changelog (← ChangelogChoice.ofGiven? given) (← path? given "output"),
    .ofProject ["tag", "tg"] [{ name := "dry-run", takesValue := false }] fun given =>
      some (.tag (isGiven given "dry-run")),
    .ofProject ["validate-commit-message", "vcm"]
      [{ name := "path" }, { name := "file" }, { name := "source" }] fun given => do
        return .checkMessage ((← path? given "path").getD ".git")
          ((value? given "file").getD "COMMIT_EDITMSG") (value? given "source")]

/-- Reads a word for a command with what follows it. The options for all commands that were given
before come after those that follow. -/
def Invocation.readCommand? (commands : List CommandRule) (before : List GivenOption) :
    List String → Option Invocation
  | [] => none
  | word :: args => do
    let rule ← commands.find? (word ∈ ·.words)
    let (given, rest) ← readLevel? (settingRules ++ rule.rules) args
    guard rest.isEmpty
    return { settings := ← Settings.ofGiven? (given ++ before), command := ← rule.command? given }

/-- Reads a command line. -/
def Invocation.read? (args : List String) : Option Invocation := do
  let (given, rest) ← readLevel? settingRules args
  match rest with
  | [] => none
  | word :: args =>
    if word ∈ configWords then
      let (more, rest) ← readLevel? settingRules args
      readCommand? configRules (more ++ given) rest
    else readCommand? projectRules given rest

end ConventionalRelease.Cli
