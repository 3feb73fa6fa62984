import ConventionalRelease.Cli.Command
import ConventionalRelease.Cli.Workspace
import ConventionalRelease.Document.Json
import ConventionalRelease.Release.Markdown
import ConventionalRelease.Release.Plan
import ConventionalRelease.Version.Tag
import ConventionalRelease.Yaml.Printer

/-!
# Running commands

Each command is a function from a workspace to a reply, which may fail. `run` reads a command line,
goes to the directory that it names, and turns the reply or the failure into an outcome.
-/

namespace ConventionalRelease

/-- A tag with its time as a document. -/
def TagInfo.toDocument (info : TagInfo) : Document :=
  .mapping [("name", .text info.name), ("date", .ofText? (info.date.map (·.text)))]

/-- The three numbers of a version. -/
def Version.core (v : Version) : String :=
  String.ofList v.coreText

namespace Cli

/-- Whether details are printed. -/
def Settings.showsDetails (settings : Settings) : Bool :=
  settings.verbose && !settings.quiet

/-- A document on lines. -/
def jsonLines (d : Document) : String :=
  Json.write .indented d ++ "\n"

/-- A line with a value under a name. -/
def detail (name value : String) : String :=
  "  " ++ name ++ ": " ++ value ++ "\n"

/-! ## Configurations -/

/-- Shows the default configuration. -/
def showDefaults (settings : Settings) : Reply :=
  match settings.format with
  | .json => { text := jsonLines (Config.toDocument {}) }
  | .text => { text := Yaml.write (Config.toDocument {}) }

/-- Shows the configuration, and says which files it was read from. -/
def showConfig (settings : Settings) (config : Config) (files : List Path) : Reply :=
  match settings.format with
  | .json =>
    { text := jsonLines (Document.mapping [("files", .texts (files.map Path.render)),
        ("config", config.toDocument)]).inKeyOrder }
  | .text =>
    { text := Yaml.write config.toDocument
      notices := if settings.quiet then []
        else files.map fun file => ⟨.info, "loaded " ++ file.render⟩ }

/-! ## Versions -/

/-- Shows the current version. -/
def showCurrentVersion (settings : Settings) (p : Project) : Attempt Reply := do
  let current ← p.currentVersion
  match settings.format with
  | .json =>
    let tag := (current.tag.map TagInfo.toDocument).getD .null
    return { text := jsonLines (Document.mapping [("tag", tag),
      ("version", .text current.version.core)]).inKeyOrder }
  | .text =>
    if settings.showsDetails then
      return { text := detail "Tag" current.tagName ++ detail "Version" current.version.core }
    else return { text := current.version.core ++ "\n" }

/-- What is said when nothing has to be released. -/
def nothingSince (next : NextVersion) : String :=
  "no release-worthy commits since " ++ next.current.version.text

/-- Shows the next version. -/
def showNextVersion (settings : Settings) (p : Project) : Attempt Reply := do
  let next ← p.nextVersion (← p.writer)
  let count := next.commits.length
  match settings.format with
  | .json =>
    return { text := jsonLines (Document.mapping [("current", .text next.current.version.text),
      ("next", .text next.version.text), ("bumpType", .text next.decision.level.word),
      ("updated", .bool next.decision.updated), ("commits", .int count)]).inKeyOrder }
  | .text =>
    let text := if settings.showsDetails then
        "Version Calculation\n\n" ++ detail "Current version" next.current.version.text ++
          detail "Next version" next.version.text ++ detail "Bump type" next.decision.level.word ++
          detail "Commits analyzed" (toString count)
      else next.version.core ++ "\n"
    return ({ text } : Reply).noting (!next.decision.updated && !settings.quiet) .info
      (nothingSince next)

/-- Makes the tag of the next version, or only shows it. -/
def makeTag (settings : Settings) (p : Project) (dryRun : Bool) (now : Instant) :
    Attempt Reply := do
  let next ← p.nextVersion (← p.writer)
  if !next.decision.updated then
    return ({} : Reply).noting (!settings.quiet) .info
      ("nothing to do: current version " ++ next.current.version.text ++ " unchanged")
  else
    let version := next.version
    let name := p.config.tag.name version
    if !dryRun then
      discard <| Attempt.within ("error generating tag version: " ++ version.text)
        (.history (p.repository.newTag name now))
    let changes := if dryRun then [] else [Change.record (.tag name now.seconds "HEAD")]
    match settings.format with
    | .json =>
      return {
        text := jsonLines (Document.mapping [("tag", .text name), ("version", .text version.text),
          ("created", .bool !dryRun)]).inKeyOrder
        changes }
    | .text =>
      return ({ text := name ++ "\n", changes } : Reply).noting (settings.showsDetails && !dryRun)
        .done ("tagged HEAD as " ++ name)

/-! ## Commits and notes -/

/-- The range that was asked for. -/
def RangeChoice.range (choice : RangeChoice) (p : Project) : LogRange :=
  p.range choice.kind choice.start choice.stop

/-- The range of the commits to list. -/
def LogChoice.range (choice : LogChoice) (p : Project) : Attempt LogRange :=
  match choice with
  | ofRange range => return range.range p
  | ofTag name => do
    let previous ← p.previousTag name
    return .of .tag (previous.map (·.name)) (some name)

/-- Lists commits, each as a document on a line. -/
def listCommits (p : Project) (choice : LogChoice) : Attempt Reply := do
  let writer ← p.writer
  let range ← choice.range p
  let log ← Attempt.within "error getting git log" (p.log range)
  let commits ← .message (writer.convention.readLog log)
  return { text := String.join (commits.map fun c => Json.write .compact c.toDocument ++ "\n") }

/-- A release note in the format that is set. -/
def noteText (settings : Settings) (note : ReleaseNote) : String :=
  match settings.format with
  | .json => Json.write .indented note.toDocument
  | .text => note.markdown true

/-- Writes a note for a range of commits. -/
def writeRangeNote (settings : Settings) (p : Project) (choice : RangeChoice)
    (output : Option String) : Attempt Reply := do
  let note ← p.rangeNote (← p.writer) (choice.range p)
  return .document (noteText settings note) output

/-- Writes the release note for a tag or the next version. -/
def writeReleaseNote (settings : Settings) (p : Project) (tag output : Option String)
    (now : Instant) : Attempt Reply := do
  let writer ← p.writer
  match tag with
  | some name => return .document (noteText settings (← p.tagNote writer name)) output
  | none =>
    let next ← p.nextVersion writer
    let note := Project.nextNote writer next now
    return (Reply.document (noteText settings note) output).noting
      (!next.decision.updated && !settings.quiet) .warning (nothingSince next)

/-- The tags to list in a changelog from the last one back, each with the tag before it. -/
def changelogTags (choice : ChangelogChoice) (tags : List TagInfo) :
    List (TagInfo × Option TagInfo) :=
  let pairs := tags.zip (tags.tail.map some ++ [none])
  let pairs := if choice.all then pairs else pairs.take choice.size
  if choice.versionsOnly then pairs.filter fun (tag, _) => Version.isVersion tag.name else pairs

/-- The release notes of a changelog, the last one first. -/
def changelogNotes (p : Project) (choice : ChangelogChoice) (now : Instant) :
    Attempt (List ReleaseNote) := do
  let writer ← p.writer
  let first ← if choice.withNext then
      let next ← p.nextVersion writer
      pure (if next.decision.updated then [Project.nextNote writer next now] else [])
    else pure []
  let notes ← (changelogTags choice p.tags.reverse).mapM fun (tag, previous) =>
    p.noteSince writer previous tag
  return first ++ notes

/-- Writes a changelog. -/
def writeChangelog (settings : Settings) (p : Project) (choice : ChangelogChoice)
    (output : Option String) (now : Instant) : Attempt Reply := do
  let notes ← changelogNotes p choice now
  let text := match settings.format with
    | .json => Json.write .indented (.list (notes.map ReleaseNote.toDocument))
    | .text => changelog notes
  return .document text output

/-! ## Commit messages -/

/-- A commit message with a footer after it, which begins a line. -/
def withFooter (message footer : String) : String :=
  let gap := if message = "" || message.toList.getLast? = some '\n' then "" else "\n"
  message ++ gap ++ footer ++ "\n"

/-- The source of a message that is not checked. -/
def uncheckedSource : String := "merge"

/-- Checks the commit message in a file, and completes it with the issue of the branch. -/
def checkMessage (w : Workspace) (p : Project) (directory file : String) (source : Option String) :
    Attempt Reply := do
  let convention := (← p.writer).convention
  let branch := p.repository.currentBranch.getD ""
  if convention.skipsBranch branch p.repository.isDetached || source = some uncheckedSource then
    return {}
  else
    let written := Path.joinText directory file
    let (path, message) ← Attempt.within ("failed to read commit message " ++ written)
      (.file (w.files.read w.directory written))
    Attempt.within "invalid commit message" (.message (convention.validate message))
    match convention.enhance branch message with
    | .error _ => return {}
    | .ok footer =>
      if footer = "" then return {}
      else return { changes := [.write path (withFooter message footer)] }

/-! ## All commands -/

/-- Runs a command for a repository with its configuration. -/
def runInProject (w : Workspace) (settings : Settings) (p : Project) :
    ProjectCommand → Attempt Reply
  | .currentVersion => showCurrentVersion settings p
  | .nextVersion => showNextVersion settings p
  | .commitLog choice => listCommits p choice
  | .commitNotes range output => writeRangeNote settings p range output
  | .releaseNotes tag output => writeReleaseNote settings p tag output w.now
  | .changelog choice output => writeChangelog settings p choice output w.now
  | .tag dryRun => makeTag settings p dryRun w.now
  | .checkMessage directory file source => checkMessage w p directory file source

/-- Runs a command in the working directory. The default configuration can be shown whatever the
configuration is, and the configuration outside of repositories. -/
def runHere (w : Workspace) (settings : Settings) : Command → Attempt Reply
  | .showDefaults => return showDefaults settings
  | .showConfig => do
    let (config, files) ← w.config
    return showConfig settings config files
  | .project command => do
    let (config, _) ← w.config
    let repository ← w.repository
    runInProject w settings { config, repository } command

/-- The workspace after going to the directory that is set. -/
def enter (w : Workspace) (settings : Settings) : Attempt Workspace :=
  match settings.directory with
  | none => return w
  | some text => do
    let directory ← Attempt.within ("cannot enter " ++ text)
      (.file (w.files.enter w.directory text))
    return { w with directory }

/-- Runs a command line. -/
def run (w : Workspace) (args : List String) : Outcome :=
  match Invocation.read? args with
  | none => .unreadable
  | some invocation =>
    let attempt := do
      let w ← enter w invocation.settings
      return (← runHere w invocation.settings invocation.command).outcome w
    match attempt with
    | .ok outcome => outcome
    | .error f => .ofFailure [] f

end Cli

end ConventionalRelease
