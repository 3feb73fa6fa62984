import ConventionalRelease.Calendar.Instant
import ConventionalRelease.Commit.Convention
import ConventionalRelease.Config.Document
import ConventionalRelease.Release.Outline
import ConventionalRelease.Version.Basic

/-!
# Release notes

A release note lists the commits of a release by section, in the order of the outline, with what
breaks and the names of the authors. Within a section the commits keep the order of the log, and a
section without commits is left out.
-/

namespace ConventionalRelease

/-- A section of a release note. -/
inductive NoteSection where
  /-- The commits of some types. -/
  | commits (name : String) (types : List String) (items : List LogEntry)
  /-- What the breaking changes are. -/
  | breakingChanges (name : String) (messages : List String)
  deriving DecidableEq, Inhabited

/-- The title of the section. -/
def NoteSection.name : NoteSection → String
  | commits name _ _ => name
  | breakingChanges name _ => name

/-- A release note. -/
structure ReleaseNote where
  /-- The version that is released, when it is known. -/
  version : Option Version
  /-- The name of the tag; empty when there is none. -/
  tag : String
  /-- When the release was made. -/
  date : Option Instant
  sections : List NoteSection
  /-- The names of the authors in ascending order, each once. -/
  authors : List String
  deriving DecidableEq, Inhabited

namespace ReleaseNote

/-- What the release is called: its version, or else its tag. -/
def label? (note : ReleaseNote) : Option String :=
  match note.version with
  | some v => some ("v" ++ v.text)
  | none => if note.tag = "" then none else some note.tag

end ReleaseNote

/-! ## Writing a note -/

/-- What is gathered from the commits of a release. -/
structure Gathered where
  /-- The names of the authors, each once. -/
  authors : List String := []
  /-- The commits by the numbers of the sections that they belong to, as far as there are any, in
  the order of the log. -/
  items : List (Nat × List LogEntry) := []
  /-- What the breaking commits say of what breaks, in the order of the log. -/
  breaking : List String := []
  deriving DecidableEq, Inhabited

namespace Gathered

/-- Adds a commit to those with the number. -/
def insertItem (index : Nat) (c : LogEntry) :
    List (Nat × List LogEntry) → List (Nat × List LogEntry)
  | [] => [(index, [c])]
  | (other, items) :: rest =>
    if other = index then (other, items ++ [c]) :: rest else (other, items) ::
      insertItem index c rest

/-- Takes in one more commit. -/
def add (outline : Outline) (g : Gathered) (c : LogEntry) : Gathered :=
  { authors := g.authors.insert c.author
    items := match outline.owners.get? c.message.type with
      | some index => insertItem index c g.items
      | none => g.items
    breaking :=
      if c.message.breaking then g.breaking ++ [c.message.breakingMessage?.getD ""]
      else g.breaking }

/-- What is gathered from the commits one after the other. -/
def ofCommits (outline : Outline) (commits : List LogEntry) : Gathered :=
  commits.foldl (add outline) {}

/-- Takes out what belongs in the section with the number, if there is anything. -/
def takeSection (g : Gathered) (index : Nat) (rule : SectionRule) : Option NoteSection × Gathered :=
  match rule.kind with
  | .breakingChanges =>
    if g.breaking.isEmpty then (none, g)
    else (some (.breakingChanges rule.name g.breaking), { g with breaking := [] })
  | .commits =>
    match g.items.lookup index with
    | some items =>
      (some (.commits rule.name rule.commitTypes items),
        { g with items := g.items.filter (·.1 != index) })
    | none => (none, g)

/-- The sections from the one with the number on, those for which there is nothing left out. -/
def sectionsFrom (g : Gathered) (index : Nat) : List SectionRule → List NoteSection
  | [] => []
  | rule :: rest =>
    let (part, g) := g.takeSection index rule
    part.toList ++ g.sectionsFrom (index + 1) rest

end Gathered

/-- The release note for the commits of a release. Its date is exact to the minute. -/
def Outline.note (outline : Outline) (version : Option Version) (tag : String)
    (date : Option Instant) (commits : List LogEntry) : ReleaseNote :=
  let gathered := Gathered.ofCommits outline commits
  { version, tag
    date := date.map Instant.minute
    sections := gathered.sectionsFrom 0 outline.sections
    authors := gathered.authors.mergeSort fun a b => decide (a ≤ b) }

/-- What release notes are written from: the convention that takes messages apart, and the
outline. -/
structure ReleaseWriter where
  /-- The convention for commit messages. -/
  convention : Convention
  /-- The outline of a note. -/
  outline : Outline
  deriving DecidableEq, Inhabited

namespace ReleaseWriter

/-- Reads the patterns of a configuration and draws up the outline. -/
def ofConfig (config : Config) : Except ConfigError ReleaseWriter := do
  let convention ← Convention.ofConfig config
  let outline ← Outline.ofSections config.sections
  return { convention, outline }

/-- The release note for the log of a release. -/
def note (writer : ReleaseWriter) (version : Option Version) (tag : String) (date : Option Instant)
    (log : List RawCommit) : Except MessageError ReleaseNote := do
  let commits ← writer.convention.readLog log
  return writer.outline.note version tag date commits

end ReleaseWriter

/-! ## As documents -/

/-- A text under a key, unless it is empty. -/
def textField (key value : String) : List (String × Document) :=
  if value = "" then [] else [(key, .text value)]

/-- A message as a document: what is empty is left out. -/
def CommitMessage.toDocument (m : CommitMessage) : Document :=
  let metadata := m.metadata.entries.map fun (name, value) => (name, Document.text value)
  .mapping (textField "type" m.type ++ textField "scope" m.scope ++
    textField "description" m.description ++ textField "body" m.body ++
    (if m.breaking then [("isBreakingChange", .bool true)] else []) ++
    if metadata.isEmpty then [] else [("metadata", .mapping metadata)])

/-- A commit with its message as a document. -/
def LogEntry.toDocument (c : LogEntry) : Document :=
  .mapping [("date", .text c.date), ("timestamp", .int c.timestamp), ("authorName", .text c.author),
    ("hash", .text c.hash), ("message", c.message.toDocument)]

/-- A section as a document. -/
def NoteSection.toDocument : NoteSection → Document
  | commits name types items =>
    .mapping [("kind", .text "commits"), ("name", .text name), ("types", .texts types),
      ("items", .list (items.map LogEntry.toDocument))]
  | breakingChanges name messages =>
    .mapping [("kind", .text "breaking-changes"), ("name", .text name),
      ("messages", .texts messages)]

/-- A text, or no value. -/
def Document.ofText? (s : Option String) : Document :=
  (s.map text).getD null

/-- A release note as a document. -/
def ReleaseNote.toDocument (note : ReleaseNote) : Document :=
  .mapping [("version", .ofText? (note.version.map (·.text))), ("tag", .text note.tag),
    ("date", .ofText? (note.date.map (·.text))),
    ("sections", .list (note.sections.map NoteSection.toDocument)),
    ("author_names", .texts note.authors)]

end ConventionalRelease
