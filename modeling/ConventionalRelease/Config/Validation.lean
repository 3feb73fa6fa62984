import ConventionalRelease.Config.Basic
import ConventionalRelease.Config.Error
import ConventionalRelease.Regex.Pattern
import ConventionalRelease.Text.Substitute

/-!
# Checks on a configuration

A configuration is checked when it is loaded: its patterns have to be patterns, its names and keys
may not be empty, no commit type may have two sections, and a tag has to show some part of the
version. The first fault, in the order of the checks, is the error.
-/

namespace ConventionalRelease

/-- Reads a configured pattern; a fault names its field. -/
def Pattern.ofField (field pattern : String) : Except ConfigError Pattern :=
  match Pattern.parse pattern.toList with
  | .ok p => .ok p
  | .error cause => .error (.invalidPattern field pattern cause)

/-- The group of a header selector that holds the header. -/
def headerGroup : String := "header"

/-- The field of the header selector. -/
def selectorField : String := "commit-message.header-selector"

/-- The field, or rather the fields, of the issue pattern of a branch name. -/
def issueField : String := "branches.prefix/suffix + commit-message.issue.regex"

/-- Reads a header selector, which has to have a group for the header. -/
def readSelector (pattern : String) : Except ConfigError Pattern := do
  let p ← Pattern.ofField selectorField pattern
  if (p.groupNamed? headerGroup).isNone then
    throw (.invalidValue selectorField ("could not find group " ++ headerGroup))
  return p

namespace MessageRules

/-- Checks the header selector, and that each footer has a key. -/
def validate (rules : MessageRules) : Except ConfigError Unit := do
  if let some pattern := rules.selector? then
    discard (readSelector pattern)
  match rules.footers.entries.find? (·.2.key == "") with
  | some (name, _) =>
    throw (.invalidValue ("commit-message.footer." ++ name ++ ".key") "key cannot be empty")
  | none => return

end MessageRules

/-- The pattern of a branch name that carries an issue id, unless ids are not looked for. -/
def issuePattern? (branches : BranchRules) (messages : MessageRules) : Option String :=
  if branches.disableIssue || messages.issuePattern == "" then none
  else some (branches.issuePattern messages.issuePattern)

/-- Checks the pattern of a branch name that carries an issue id. -/
def validateIssuePattern (branches : BranchRules) (messages : MessageRules) :
    Except ConfigError Unit :=
  match issuePattern? branches messages with
  | some pattern => discard (Pattern.ofField issueField pattern)
  | none => .ok ()

/-- Records that each type belongs to a section, in order, unless it has a section already. -/
def claimTypes (name : String) (owners : List (String × String)) :
    List String → Except ConfigError (List (String × String))
  | [] => .ok owners
  | type :: rest =>
    match owners.lookup type with
    | some first => .error (.duplicateType type first name)
    | none => claimTypes name ((type, name) :: owners) rest

/-- Checks the sections from the one numbered `index` on, given the owners of types and the section
of breaking changes among those before it. -/
def validateSectionsFrom (index : Nat) (owners : List (String × String))
    (breaking : Option String) :
    List SectionRule → Except ConfigError Unit
  | [] => .ok ()
  | rule :: rest => do
    if rule.name = "" then
      throw (.invalidValue ("release-notes.sections[" ++ toString index ++ "].name")
        "section name cannot be empty")
    match rule.kind with
    | .breakingChanges =>
      match breaking with
      | some first => throw (.severalBreaking first rule.name)
      | none => validateSectionsFrom (index + 1) owners (some rule.name) rest
    | .commits =>
      let owners ← claimTypes rule.name owners rule.commitTypes
      validateSectionsFrom (index + 1) owners breaking rest

/-- Checks the sections of a release note. -/
def validateSections (sections : List SectionRule) : Except ConfigError Unit :=
  validateSectionsFrom 0 [] none sections

namespace TagRules

/-- The placeholders for the parts of a version. -/
def placeholders : List String :=
  ["\x7bmajor\x7d", "\x7bminor\x7d", "\x7bpatch\x7d", "\x7bversion\x7d"]

/-- Checks that a tag shows some part of the version. -/
def validate (rules : TagRules) : Except ConfigError Unit :=
  if placeholders.any fun word => Text.occursIn word.toList rules.pattern.toList then
    .ok ()
  else
    .error (.invalidValue "tag.pattern" ("must contain one of " ++ ", ".intercalate placeholders))

end TagRules

/-- Checks a configuration. -/
def Config.validate (config : Config) : Except ConfigError Unit := do
  config.messages.validate
  validateIssuePattern config.branches config.messages
  validateSections config.sections
  config.tag.validate

end ConventionalRelease
