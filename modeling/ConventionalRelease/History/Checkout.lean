import ConventionalRelease.Files.Tree
import ConventionalRelease.History.Repository

/-!
# Checkouts

A checkout is a directory with a repository in it. It is opened at that directory or at the one that
holds the data of the repository, and it is found from every place below.
-/

namespace ConventionalRelease

/-- A directory with a repository in it. -/
structure Checkout where
  root : Path
  repository : Repository
  deriving Inhabited

namespace Checkout

/-- The name of the directory that holds the data of the repository. -/
def dataName : String := ".git"

/-- Opens the checkout at a path. -/
def openAt (checkout : Option Checkout) (path : Path) : Except HistoryError Checkout :=
  match checkout with
  | some c =>
    if path = c.root || path = c.root ++ [dataName] then .ok c
    else .error (.repositoryNotFound path)
  | none => .error (.repositoryNotFound path)

/-- Finds the checkout that a place is in, which has to be there. -/
def discover (checkout : Option Checkout) (tree : FileTree) (path : Path) :
    Except HistoryError Checkout :=
  match checkout with
  | some c =>
    if tree.has path && c.root.isPrefixOf path then .ok c else .error (.notARepository path)
  | none => .error (.notARepository path)

end Checkout

end ConventionalRelease
