import ConventionalRelease.Release.Note

/-!
# Release notes in Markdown

A release note has a heading of the second level, each section one of the third with a list below
it, and the authors stand at the end. A changelog is a heading of the first level with the notes
below it.
-/

namespace ConventionalRelease

/-- The heading of a release note. -/
def ReleaseNote.heading (note : ReleaseNote) : String :=
  match note.label?, note.date.map (·.date.text) with
  | some label, some date => "## " ++ label ++ " (" ++ date ++ ")"
  | some label, none => "## " ++ label
  | none, some date => "## " ++ date
  | none, none => "## Unreleased"

/-- What stands before a description: the scope, and the type where a section has several. -/
def CommitMessage.lead (m : CommitMessage) (showType : Bool) : String :=
  let scope := if m.scope = "" then "" else "(" ++ m.scope ++ ")"
  if showType then "**" ++ m.type ++ scope ++ ":** "
  else if m.scope = "" then ""
  else "**" ++ m.scope ++ ":** "

/-- The list item of a commit: its description, its hash and its issue. -/
def LogEntry.item (c : LogEntry) (showType : Bool) : String :=
  let issue := match c.message.issue? with
    | some issue => " (" ++ issue ++ ")"
    | none => ""
  "- " ++ c.message.lead showType ++ c.message.description ++ " (" ++ c.hash ++ ")" ++ issue ++ "\n"

/-- The list of a section. -/
def NoteSection.items : NoteSection → String
  | commits _ types items => String.join (items.map fun c => c.item (types.length > 1))
  | breakingChanges _ messages => String.join (messages.map fun m => "- " ++ m ++ "\n")

/-- A section with its title. -/
def NoteSection.markdown (part : NoteSection) : String :=
  "### " ++ part.name ++ "\n\n" ++ part.items ++ "\n"

/-- The line that names the authors, if there are any. -/
def ReleaseNote.authorLine (note : ReleaseNote) : String :=
  if note.authors.isEmpty then ""
  else "**Authors:** " ++ ", ".intercalate note.authors ++ "\n\n"

/-- The text of a release note, with or without the authors. -/
def ReleaseNote.markdown (note : ReleaseNote) (withAuthors : Bool) : String :=
  note.heading ++ "\n\n" ++ String.join (note.sections.map NoteSection.markdown) ++
    if withAuthors then note.authorLine else ""

/-- The text of a changelog. -/
def changelog (notes : List ReleaseNote) : String :=
  "# Changelog\n\n" ++ String.join (notes.map fun note => note.markdown true)

end ConventionalRelease
