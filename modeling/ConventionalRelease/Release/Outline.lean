import ConventionalRelease.Config.Basic
import ConventionalRelease.Config.Error

/-!
# The outline of a release note

An outline says for each commit type in which section of a release note its commits stand, by the
number of the section. It can only be drawn up when no type is claimed twice and breaking changes
have one section.
-/

namespace ConventionalRelease

/-- The sections of a release note, and the number of the section that each type belongs to. -/
structure Outline where
  sections : List SectionRule
  /-- The types with the numbers of their sections. -/
  owners : Dictionary Nat
  deriving DecidableEq, Inhabited

namespace Outline

/-- What is known while the sections are gone through. -/
structure Draft where
  /-- The sections gone through. -/
  sections : List SectionRule := []
  /-- The types with the numbers of their sections. -/
  owners : Dictionary Nat := ∅
  /-- The title of the section of breaking changes. -/
  breaking : Option String := none
  deriving Inhabited

/-- The title of a section by its number. -/
def titleAt (sections : List SectionRule) (index : Nat) : String :=
  (sections[index]?.map (·.name)).getD ""

/-- Gives a type to the section that is gone through, unless a section has it. -/
def Draft.claim (rule : SectionRule) (draft : Draft) (type : String) : Except ConfigError Draft :=
  let index := draft.sections.length
  match draft.owners.get? type with
  | some owner =>
    .error (.duplicateType type (titleAt (draft.sections ++ [rule]) owner) rule.name)
  | none => .ok { draft with owners := draft.owners.insert type index }

/-- Goes through one more section. -/
def Draft.add (draft : Draft) (rule : SectionRule) : Except ConfigError Draft :=
  match rule.kind with
  | .breakingChanges =>
    match draft.breaking with
    | some first => .error (.severalBreaking first rule.name)
    | none =>
      .ok { draft with sections := draft.sections ++ [rule], breaking := some rule.name }
  | .commits => do
    let draft ← rule.commitTypes.foldlM (Draft.claim rule) draft
    return { draft with sections := draft.sections ++ [rule] }

/-- Draws up the outline. -/
def ofSections (sections : List SectionRule) : Except ConfigError Outline := do
  let draft ← sections.foldlM Draft.add {}
  return ⟨draft.sections, draft.owners⟩

end Outline

end ConventionalRelease
