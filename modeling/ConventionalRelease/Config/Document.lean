import ConventionalRelease.Config.Basic
import ConventionalRelease.Document.Field

/-!
# Configurations as documents

`Config.toDocument` writes a configuration as a document and `Config.ofDocument?` reads one. A
record is read from a mapping, whose unknown keys are ignored and whose missing keys stand for the
defaults, or from a list of its fields in order, where missing fields at the end stand for the
defaults.
-/

namespace ConventionalRelease

open Document

namespace VersioningRules

/-- The rules as a document. -/
def toDocument (rules : VersioningRules) : Document :=
  mapping [("update-major", .texts rules.major), ("update-minor", .texts rules.minor),
    ("update-patch", .texts rules.patch), ("ignore-unknown", bool rules.ignoreUnknown)]

/-- Reads the rules from a document. -/
def ofDocument? (d : Document) : Option VersioningRules := do
  guard (d.isRecord 4)
  let default : VersioningRules := {}
  return {
    major := ← d.fieldOr 0 "update-major" texts? default.major
    minor := ← d.fieldOr 1 "update-minor" texts? default.minor
    patch := ← d.fieldOr 2 "update-patch" texts? default.patch
    ignoreUnknown := ← d.fieldOr 3 "ignore-unknown" bool? default.ignoreUnknown }

end VersioningRules

namespace TagRules

/-- The rules as a document. -/
def toDocument (rules : TagRules) : Document :=
  mapping [("pattern", text rules.pattern), ("filter", text rules.filter)]

/-- Reads the rules from a document. -/
def ofDocument? (d : Document) : Option TagRules := do
  guard (d.isRecord 2)
  let default : TagRules := {}
  return {
    pattern := ← d.fieldOr 0 "pattern" text? default.pattern
    filter := ← d.fieldOr 1 "filter" text? default.filter }

end TagRules

namespace SectionKind

/-- The word for what a section collects. -/
def word : SectionKind → String
  | commits => "commits"
  | breakingChanges => "breaking-changes"

/-- Reads the word for what a section collects. -/
def ofWord? (s : String) : Option SectionKind :=
  if s = "commits" then some commits
  else if s = "breaking-changes" then some breakingChanges
  else none

/-- Reads what a section collects: a word, or a mapping from the word alone to `null`. -/
def ofDocument? : Document → Option SectionKind
  | text s => ofWord? s
  | mapping [(s, null)] => ofWord? s
  | _ => none

end SectionKind

namespace SectionRule

/-- The section as a document; it has no list of types when there are none. -/
def toDocument (rule : SectionRule) : Document :=
  mapping ([("name", text rule.name), ("section-type", text rule.kind.word)] ++
    if rule.commitTypes = [] then [] else [("commit-types", .texts rule.commitTypes)])

/-- Reads a section from a document. -/
def ofDocument? (d : Document) : Option SectionRule := do
  guard (d.isRecord 3)
  let name ← (← d.field? 0 "name").text?
  let kind ← SectionKind.ofDocument? (← d.field? 1 "section-type")
  return { name, kind, commitTypes := ← d.fieldOr 2 "commit-types" texts? [] }

end SectionRule

/-- The sections of a release note as a document. -/
def sectionsToDocument (sections : List SectionRule) : Document :=
  mapping [("sections", list (sections.map (·.toDocument)))]

/-- Reads the sections of a release note from a document. -/
def sectionsOfDocument? (d : Document) : Option (List SectionRule) := do
  guard (d.isRecord 1)
  d.fieldOr 0 "sections" (listOf? SectionRule.ofDocument?) defaultSections

namespace BranchRules

/-- The rules as a document. -/
def toDocument (rules : BranchRules) : Document :=
  mapping [("prefix", text rules.before), ("suffix", text rules.after),
    ("disable-issue", bool rules.disableIssue), ("skip", .texts rules.skip),
    ("skip-detached", bool rules.skipDetached)]

/-- Reads the rules from a document. -/
def ofDocument? (d : Document) : Option BranchRules := do
  guard (d.isRecord 5)
  let default : BranchRules := {}
  return {
    before := ← d.fieldOr 0 "prefix" text? default.before
    after := ← d.fieldOr 1 "suffix" text? default.after
    disableIssue := ← d.fieldOr 2 "disable-issue" bool? default.disableIssue
    skip := ← d.fieldOr 3 "skip" texts? default.skip
    skipDetached := ← d.fieldOr 4 "skip-detached" bool? default.skipDetached }

end BranchRules

namespace FooterStyle

/-- The style as a document. -/
def toDocument (style : FooterStyle) : Document :=
  mapping [("key", text style.key), ("key-synonyms", .texts style.synonyms),
    ("use-hash", bool style.useHash), ("add-value-prefix", text style.valuePrefix)]

/-- Reads a style from a document. -/
def ofDocument? (d : Document) : Option FooterStyle := do
  guard (d.isRecord 4)
  return {
    key := ← d.fieldOr 0 "key" text? ""
    synonyms := ← d.fieldOr 1 "key-synonyms" texts? []
    useHash := ← d.fieldOr 2 "use-hash" bool? false
    valuePrefix := ← d.fieldOr 3 "add-value-prefix" text? "" }

end FooterStyle

/-- The footers as a document. -/
def footersToDocument (footers : Dictionary FooterStyle) : Document :=
  mapping (footers.entries.map fun (name, style) => (name, style.toDocument))

/-- Reads footers from a document. -/
def footersOfDocument? : Document → Option (Dictionary FooterStyle)
  | mapping fields => do
    let entries ← fields.mapM fun (name, style) => do
      return (name, ← FooterStyle.ofDocument? style)
    return .ofList entries
  | _ => none

/-- Reads a record of one field. -/
def soleField? {α : Type} (key : String) (read : Document → Option α) (default : α)
    (d : Document) : Option α := do
  guard (d.isRecord 1)
  d.fieldOr 0 key read default

namespace MessageRules

/-- The rules as a document; an unset header selector is left out. -/
def toDocument (rules : MessageRules) : Document :=
  let selector := match rules.headerSelector with
    | some s => [("header-selector", text s)]
    | none => []
  mapping ([("types", .texts rules.types)] ++ selector ++
    [("scope", mapping [("values", .texts rules.scopes)]),
      ("footer", footersToDocument rules.footers),
      ("issue", mapping [("regex", text rules.issuePattern)])])

/-- Reads the rules from a document. -/
def ofDocument? (d : Document) : Option MessageRules := do
  guard (d.isRecord 5)
  let default : MessageRules := {}
  return {
    types := ← d.fieldOr 0 "types" texts? default.types
    headerSelector := ← d.fieldOr 1 "header-selector" optionalText? none
    scopes := ← d.fieldOr 2 "scope" (soleField? "values" texts? []) default.scopes
    footers := ← d.fieldOr 3 "footer" footersOfDocument? default.footers
    issuePattern := ← d.fieldOr 4 "issue" (soleField? "regex" text? "") default.issuePattern }

end MessageRules

namespace Config

/-- The configuration as a document; an unset log level is left out. -/
def toDocument (config : Config) : Document :=
  let level := match config.logLevel with
    | some s => [("log-level", text s)]
    | none => []
  mapping ([("version", text config.version)] ++ level ++
    [("versioning", config.versioning.toDocument), ("tag", config.tag.toDocument),
      ("release-notes", sectionsToDocument config.sections),
      ("branches", config.branches.toDocument),
      ("commit-message", config.messages.toDocument)])

/-- Reads a configuration from a document. -/
def ofDocument? (d : Document) : Option Config := do
  guard (d.isRecord 7)
  let default : Config := {}
  return {
    version := ← d.fieldOr 0 "version" text? default.version
    logLevel := ← d.fieldOr 1 "log-level" optionalText? none
    versioning := ← d.fieldOr 2 "versioning" VersioningRules.ofDocument? default.versioning
    tag := ← d.fieldOr 3 "tag" TagRules.ofDocument? default.tag
    sections := ← d.fieldOr 4 "release-notes" sectionsOfDocument? default.sections
    branches := ← d.fieldOr 5 "branches" BranchRules.ofDocument? default.branches
    messages := ← d.fieldOr 6 "commit-message" MessageRules.ofDocument? default.messages }

end Config

end ConventionalRelease
