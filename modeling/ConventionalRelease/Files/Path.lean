import ConventionalRelease.Text.Lines

/-!
# Paths

An absolute path is the list of names that lead to it from the root. A written path is read against
a directory: it starts there unless it begins with a slash, `.` stays and `..` goes to the parent.
-/

namespace ConventionalRelease

/-- The names that lead from the root to a place in a file tree. -/
abbrev Path := List String

namespace Path

/-- The directory above; the root is above itself. -/
def parent (p : Path) : Path := p.dropLast

/-- Goes on by one name. -/
def enter (p : Path) (name : String) : Path :=
  if name = "" || name = "." then p
  else if name = ".." then p.parent
  else p ++ [name]

/-- The names between the slashes of a written path. -/
def names (text : String) : List String :=
  (Text.splitAt '/' text.toList).map String.ofList

/-- Where a written path starts that is read against the directory `p`. -/
def start (p : Path) (text : String) : Path :=
  if text.toList.head? = some '/' then [] else p

/-- The path that is written `text` as seen from the directory `p`. -/
def resolve (p : Path) (text : String) : Path :=
  (names text).foldl enter (p.start text)

/-- The path as it is written. -/
def render (p : Path) : String :=
  "/" ++ "/".intercalate p

/-- A written path that goes on from another by a written path. -/
def joinText (directory text : String) : String :=
  if text.toList.head? = some '/' then text
  else if directory.toList.getLast? = some '/' then directory ++ text
  else directory ++ "/" ++ text

/-- The part of the last name after its last dot, if a name stands before that dot. -/
def extension? (p : Path) : Option String := do
  let name ← p.getLast?
  match (Text.splitAt '.' name.toList).reverse with
  | last :: before :: more =>
    if before.isEmpty && more.isEmpty then none else some (String.ofList last)
  | _ => none

end Path

end ConventionalRelease
