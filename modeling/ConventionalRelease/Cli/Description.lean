import ConventionalRelease.Cli.Workspace
import ConventionalRelease.Config.Document

/-!
# Workspaces as documents

A workspace is described by a document: its files with their texts, the journal of its repository
and where that is, the directories of the user, the working directory and the time. What a command
changes is described in the same way.
-/

namespace ConventionalRelease.Cli

/-- Reads a path from a document. -/
def readPath? (d : Document) : Option Path :=
  d.text?.map (Path.resolve [])

/-- Reads a path that may be missing. -/
def readOptionalPath? (d : Document) : Option (Option Path) :=
  d.optionalText?.map fun text => text.map (Path.resolve [])

/-- A file tree with a file, and the directories above it. -/
def addFile (tree : FileTree) (p : Path) (text : String) : FileTree :=
  (tree.makeDirectory p.parent).set p (.file text)

/-- Reads a file tree: a mapping from paths to texts. -/
def readFiles? (d : Document) : Option FileTree :=
  match d with
  | .mapping fields =>
    fields.foldlM (fun tree (name, d) => (addFile tree (Path.resolve [] name)) <$> d.text?)
      FileTree.empty
  | _ => none

/-- Reads a journal as the repository that it leads to. -/
def readRepository? (d : Document) : Option Repository :=
  (d.listOf? Event.ofDocument?).bind Repository.ofJournal?

/-- Reads a field that may be missing. -/
def optionalPath? (d : Document) (key : String) : Option (Option Path) :=
  d.fieldOr 0 key readOptionalPath? none

/-- Reads where the repository is and what was done in it. -/
def readCheckout? (d : Document) : Option (Option Checkout) := do
  match ← optionalPath? d "repository" with
  | none => return none
  | some root => return some { root, repository := ← d.required? "journal" readRepository? }

/-- Reads a workspace from its description. -/
def Workspace.ofDocument? (d : Document) : Option Workspace := do
  let directory ← d.required? "directory" readPath?
  let files ← d.required? "files" readFiles?
  let checkout ← readCheckout? d
  return {
    files :=
  (checkout.map (·.root)).toList.foldl FileTree.makeDirectory (files.makeDirectory directory)
    checkout
    user := { own := ← optionalPath? d "own", shared := ← optionalPath? d "shared" }
    directory
    now := ⟨← d.required? "now" Document.int?⟩ }

/-- A change as a document. -/
def Change.toDocument : Change → Document
  | write path text =>
    .mapping [("write", .mapping [("path", .text path.render), ("text", .text text)])]
  | record event => .mapping [("record", event.toDocument)]

end ConventionalRelease.Cli
