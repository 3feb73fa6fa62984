import ConventionalRelease.History.Range
import ConventionalRelease.History.Tags
import ConventionalRelease.Release.Bump
import ConventionalRelease.Release.Failure
import ConventionalRelease.Release.Note
import ConventionalRelease.Version.Reader

/-!
# Planning a release

The last tag that the configuration admits names the current version. The commits since then decide
the next version, and they are what its release note is about; the note for a tag is about the
commits since the tag before it.
-/

namespace ConventionalRelease

/-- The current version. -/
structure CurrentVersion where
  tag : Option TagInfo
  /-- The version that it names; 0.0.0 when there is no tag. -/
  version : Version
  deriving DecidableEq, Inhabited

/-- The name of the last tag; empty when there is none. -/
def CurrentVersion.tagName (current : CurrentVersion) : String :=
  (current.tag.map (·.name)).getD ""

/-- The next version. -/
structure NextVersion where
  /-- The version that it follows. -/
  current : CurrentVersion
  /-- What follows from the commits. -/
  decision : Decision
  /-- The commits since the last tag. -/
  commits : List LogEntry
  deriving DecidableEq, Inhabited

/-- The next version, or else the current one. -/
def NextVersion.version (next : NextVersion) : Version :=
  next.decision.version.getD next.current.version

/-- A configuration together with the repository it is for. -/
structure Project where
  config : Config
  repository : Repository
  deriving Inhabited

namespace Project

/-- The writer of release notes. -/
def writer (p : Project) : Attempt ReleaseWriter :=
  .config (ReleaseWriter.ofConfig p.config)

/-- The tags of versions, in order. -/
def tags (p : Project) : List TagInfo :=
  p.repository.tagsIn p.config.tag.filter

/-- The last tag of a version. -/
def lastTag? (p : Project) : Option TagInfo :=
  p.repository.lastTag? p.config.tag.filter

/-- The tag before the one with the name. -/
def previousTag (p : Project) (name : String) : Attempt (Option TagInfo) :=
  .history (p.repository.previousTag name p.config.tag.filter)

/-- The log of a range. -/
def log (p : Project) (range : LogRange) : Attempt (List RawCommit) :=
  .history (p.repository.log range)

/-- The log since a tag, up to another or to what is checked out. -/
def logSince (p : Project) (start : Option TagInfo) (stop : Option String) :
    Attempt (List RawCommit) :=
  p.log (.of .tag (start.map (·.name)) stop)

/-- The current version. -/
def currentVersion (p : Project) : Attempt CurrentVersion := do
  let tag := p.lastTag?
  let name := (tag.map (·.name)).getD ""
  let version ← Attempt.within ("error parsing version from git tag '" ++ name ++ "'")
    (.version (Version.parse name))
  return { tag, version }

/-- The next version. -/
def nextVersion (p : Project) (writer : ReleaseWriter) : Attempt NextVersion := do
  let current ← p.currentVersion
  let log ← Attempt.within "error getting git log" (p.logSince current.tag none)
  let commits ← .message (writer.convention.readLog log)
  let decision ← .version ((ReleasePolicy.ofConfig p.config).decide (some current.version) commits)
  return { current, decision, commits }

/-- The release note for the next version. It has no tag yet. -/
def nextNote (writer : ReleaseWriter) (next : NextVersion) (now : Instant) : ReleaseNote :=
  writer.outline.note (some next.version) "" (some now) next.commits

/-- The release note for a tag that follows another. -/
def noteSince (p : Project) (writer : ReleaseWriter) (previous : Option TagInfo) (tag : TagInfo) :
    Attempt ReleaseNote := do
  let log ← Attempt.within ("error getting git log from tag: " ++ tag.name)
    (p.logSince previous (some tag.name))
  .message (writer.note (Version.parse tag.name).toOption tag.name tag.date log)

/-- The release note for the tag with the name. -/
def tagNote (p : Project) (writer : ReleaseWriter) (name : String) : Attempt ReleaseNote := do
  let tag ← .history (p.repository.findTag name p.config.tag.filter)
  let previous ← p.previousTag name
  p.noteSince writer previous tag

/-- A range of the log as it was asked for. A range of tags starts at the last tag unless another is
given. -/
def range (p : Project) (kind : RangeKind) (start stop : Option String) : LogRange :=
  let range := LogRange.of kind start stop
  if kind = .tag && range.start.isNone then
    { range with start := p.lastTag?.map (·.name) }
  else range

/-- The release note for a range of the log, of the date of its newest commit. -/
def rangeNote (p : Project) (writer : ReleaseWriter) (range : LogRange) : Attempt ReleaseNote := do
  let log ← Attempt.within ("error getting git log from range: " ++ range.kind.word) (p.log range)
  let date := log.head?.bind fun c => Instant.ofParts? c.timestamp 0
  .message (writer.note none "" date log)

end Project

end ConventionalRelease
