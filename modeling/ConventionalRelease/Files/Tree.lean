import ConventionalRelease.Files.Path
import ConventionalRelease.Text.Blank

/-!
# File trees

A file tree says what there is at each path: nothing, a directory, or a file with its text.
-/

namespace ConventionalRelease

/-- What there is at a path. -/
inductive FileEntry where
  | directory
  | file (text : String)
  deriving DecidableEq, Repr, Inhabited

/-- Why a file cannot be read or written. -/
inductive FileError where
  /-- There is nothing at the path, or a directory above it is missing. -/
  | missing
  /-- What should be a directory is a file. -/
  | notDirectory
  /-- What should be a file is a directory. -/
  | isDirectory
  deriving DecidableEq, Repr, Inhabited

/-- The message of an error. -/
def FileError.message : FileError → String
  | missing => "No such file or directory (os error 2)"
  | notDirectory => "Not a directory (os error 20)"
  | isDirectory => "Is a directory (os error 21)"

/-- What there is at each path. -/
abbrev FileTree := Path → Option FileEntry

namespace FileTree

/-- The tree that only has its root. -/
def empty : FileTree := fun p => if p = [] then some .directory else none

/-- Whether there is a file. -/
def isFile (tree : FileTree) (p : Path) : Bool :=
  match tree p with
  | some (.file _) => true
  | _ => false

/-- Whether there is a directory. -/
def isDirectory (tree : FileTree) (p : Path) : Bool :=
  tree p = some .directory

/-- Whether there is anything. -/
def has (tree : FileTree) (p : Path) : Bool :=
  (tree p).isSome

/-- The text of a file. -/
def text? (tree : FileTree) (p : Path) : Option String :=
  match tree p with
  | some (.file text) => some text
  | _ => none

/-- The first of the names in a directory that is the name of a file. -/
def firstFile? (tree : FileTree) (directory : Path) (names : List String) : Option Path :=
  (names.map (directory ++ [·])).find? tree.isFile

/-- The tree with an entry at a path. -/
def set (tree : FileTree) (p : Path) (entry : FileEntry) : FileTree :=
  fun q => if q = p then some entry else tree q

/-- The tree with a directory and those above it, where there was nothing. -/
def makeDirectory (tree : FileTree) (p : Path) : FileTree :=
  fun q => if q.isPrefixOf p then (tree q).orElse fun _ => some .directory else tree q

/-- The tree without a path and what is below it. -/
def remove (tree : FileTree) (p : Path) : FileTree :=
  fun q => if p.isPrefixOf q then none else tree q

/-! ## Written paths

A written path is followed name by name, so every name but the last has to be the name of a
directory that there is. -/

/-- Goes on from a directory by the names. -/
def descend (tree : FileTree) (p : Path) : List String → Except FileError Path
  | [] => .ok p
  | name :: rest =>
    match tree p with
    | none => .error .missing
    | some (.file _) => .error .notDirectory
    | some .directory => tree.descend (p.enter name) rest

/-- The path that is written `text` as seen from a directory. There need not be anything at it. -/
def follow (tree : FileTree) (directory : Path) (text : String) : Except FileError Path :=
  tree.descend (Path.start directory text) (Path.names text)

/-- The directory that is written `text`. -/
def enter (tree : FileTree) (directory : Path) (text : String) : Except FileError Path := do
  let p ← tree.follow directory text
  match tree p with
  | none => throw .missing
  | some (.file _) => throw .notDirectory
  | some .directory => return p

/-- The file that is written `text`, and what it holds. -/
def read (tree : FileTree) (directory : Path) (text : String) :
    Except FileError (Path × String) := do
  let p ← tree.follow directory text
  match tree p with
  | none => throw .missing
  | some .directory => throw .isDirectory
  | some (.file content) => return (p, content)

/-- Where a file can be written that is written `text`: where a directory is above it and no
directory in its place. A slash at the end asks for a directory. -/
def place (tree : FileTree) (directory : Path) (text : String) : Except FileError Path := do
  let p ← tree.follow directory (String.ofList (Text.dropEndWhile (· = '/') text.toList))
  if text.toList.getLast? = some '/' || tree.isDirectory p then throw .isDirectory
  return p

end FileTree

end ConventionalRelease
