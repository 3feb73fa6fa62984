import ConventionalRelease.Files.Path
import ConventionalRelease.History.Commit

/-!
# Repositories

A repository holds commits, and names for some of them: branches, of which one may be checked out,
and tags. A tag names a commit, files that are no commit, or an object that says who tagged what and
when, and which may tag another such object. So a name may stand for something that leads to no
commit, and `Repository.resolve` fails in two ways.

A revision is a full hash, `HEAD`, `@`, or the name of a tag or a branch, and it may go back by
generations. Shortened hashes, the names of other repositories' branches, and the marks other than
`~` are not read.
-/

namespace ConventionalRelease

/-- Why a repository cannot answer. -/
inductive HistoryError where
  /-- There is no repository at the path. -/
  | repositoryNotFound (path : Path)
  /-- There is no repository at the path or above it. -/
  | notARepository (path : Path)
  /-- No tag has the name, or the filter leaves it out. -/
  | unknownTag (name : String)
  /-- There is a tag with the name. -/
  | tagExists (name : String)
  /-- The text is no date. -/
  | invalidDate (text : String)
  /-- The text names no commit. -/
  | unknownRevision (text : String)
  /-- The repository cannot do it in its state. -/
  | refused
  deriving DecidableEq, Repr, Inhabited

/-- The message of an error, up to the words of the repository's own diagnosis. -/
def HistoryError.message : HistoryError → String
  | repositoryNotFound path => "Git repository not found at " ++ path.render
  | notARepository path => "Not a git repository: " ++ path.render
  | unknownTag name => "Unknown tag: " ++ name ++ " not found, check tag filter"
  | tagExists name => "Tag already exists: " ++ name
  | invalidDate text => "Invalid log range: '" ++ text ++ "' is not a YYYY-MM-DD date"
  | unknownRevision text => "Invalid log range: unknown revision '" ++ text ++ "'"
  | refused => "Git error:"

/-- What a tag names. -/
inductive Tagged where
  | commit (descent : Descent)
  /-- Files that are no commit: those of a directory, or a single one. -/
  | files
  /-- An object that tags something else, made at a time if it has a tagger. -/
  | object (time : Option Int) (target : Tagged)
  deriving DecidableEq, Repr, Inhabited

namespace Tagged

/-- The commit that is tagged in the end, if it is a commit. -/
def descent? : Tagged → Option Descent
  | commit descent => some descent
  | files => none
  | object _ target => target.descent?

/-- When it was tagged; when the commit was made if there is no tagger. -/
def time? : Tagged → Option Int
  | object (some time) _ => some time
  | tagged => tagged.descent?.map (·.newest.committed)

end Tagged

/-- What is checked out. -/
inductive Head where
  /-- A branch, which may have no commits yet. -/
  | branch (name : String)
  /-- A commit. -/
  | detached (descent : Descent)
  deriving DecidableEq, Repr, Inhabited

/-- A repository. -/
structure Repository where
  /-- All commits. -/
  commits : List Descent := []
  /-- The commits of branches by name. -/
  branches : List (String × Descent) := []
  /-- The tags by name. -/
  tags : List (String × Tagged) := []
  /-- What is checked out. -/
  head : Head
  /-- Whether it is known who makes commits and tags. -/
  hasIdentity : Bool := true
  deriving Inhabited

namespace Repository

/-! ## What is checked out -/

/-- The commit that is checked out; none on a branch without commits. -/
def head? (r : Repository) : Option Descent :=
  match r.head with
  | .branch name => r.branches.lookup name
  | .detached descent => some descent

/-- The commit that is checked out and those that it is based on. -/
def checkedOut (r : Repository) : Lineage :=
  (r.head?.map Descent.lineage).getD []

/-- Whether a commit is checked out. -/
def hasCommits (r : Repository) : Bool :=
  r.head?.isSome

/-- The branch that is checked out. -/
def currentBranch (r : Repository) : Option String :=
  match r.head with
  | .branch name => some name
  | .detached _ => none

/-- Whether a commit is checked out, and no branch. -/
def isDetached (r : Repository) : Bool :=
  r.currentBranch.isNone

/-! ## Revisions -/

/-- What stands in front of the name of a tag in its full name. -/
def tagSpace : String := "refs/tags/"

/-- What stands in front of the name of a branch in its full name. -/
def branchSpace : String := "refs/heads/"

/-- What a full name stands for: what is checked out, a tag or a branch. -/
def reference? (r : Repository) (name : String) : Option Tagged :=
  if name = "HEAD" then r.head?.map .commit
  else match Text.after? tagSpace.toList name.toList with
    | some tag => r.tags.lookup (String.ofList tag)
    | none =>
      match Text.after? branchSpace.toList name.toList with
      | some branch => (r.branches.lookup (String.ofList branch)).map .commit
      | none => none

/-- The full names that a name may be short for, in the order in which they are tried. -/
def fullNames (name : String) : List String :=
  [name, "refs/" ++ name, tagSpace ++ name, branchSpace ++ name]

/-- What a hash or a name stands for. -/
def named? (r : Repository) (name : String) : Option Tagged :=
  match r.commits.find? (·.newest.hash = name) with
  | some descent => some (.commit descent)
  | none => (fullNames name).findSome? r.reference?

/-- How many generations the marks after a revision go back: each by its number, or by one without a
number. -/
def generations? : (fuel : Nat) → List Char → Option Nat
  | 0, _ => none
  | _ + 1, [] => some 0
  | fuel + 1, c :: rest =>
    if c = '~' then
      let digits := rest.takeWhile Char.isDigit
      let n := if digits.isEmpty then 1 else Nat.ofDigitChars 10 digits 0
      (n + ·) <$> generations? fuel (rest.drop digits.length)
    else none

/-- What stands behind a hash or a name, some generations back if there are marks after it. -/
def generation? (r : Repository) (text : String) : Option Tagged := do
  let base := text.toList.takeWhile (· ≠ '~')
  let marks := text.toList.drop base.length
  let found ← r.named? (String.ofList base)
  if marks.isEmpty then return found
  else
    let n ← generations? (marks.length + 1) marks
    return .commit (← Descent.ofLineage? ((← found.descent?).lineage.drop n))

/-- What a revision stands for. An `@` alone is what is checked out. -/
def revision? (r : Repository) (text : String) : Option Tagged :=
  r.generation? (if text = "@" then "HEAD" else text)

/-- The commit that a revision leads to. It may stand for nothing, or for what is no commit. -/
def resolve (r : Repository) (text : String) : Except HistoryError Descent :=
  match r.revision? text with
  | none => .error (.unknownRevision text)
  | some found =>
    match found.descent? with
    | none => .error .refused
    | some descent => .ok descent

end Repository

end ConventionalRelease
