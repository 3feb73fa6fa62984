import ConventionalRelease.Commit.Error
import ConventionalRelease.Files.Tree
import ConventionalRelease.History.Repository
import ConventionalRelease.Version.Error

/-!
# Failures

What is done for a release may fail for a reason that the configuration, the history, a version, a
commit message or a file gives. A failure says what was being done, from the outside in, and the
reason at the end.
-/

namespace ConventionalRelease

/-- Why something failed. -/
inductive Cause where
  | config (e : ConfigError)
  | history (e : HistoryError)
  | version (e : VersionError)
  | message (e : MessageError)
  | file (e : FileError)
  deriving DecidableEq, Repr, Inhabited

namespace Cause

/-- The message of the error. -/
def text : Cause → String
  | config e => e.message
  | history e => e.message
  | version e => e.message
  | message e => e.message
  | file e => e.message

/-- The exit code by which the cause can be told. -/
def exitCode : Cause → Nat
  | config _ => 2
  | history _ => 3
  | version _ => 4
  | message (.noIssue _) => 1
  | message _ => 5
  | file _ => 1

end Cause

/-- A failure. -/
structure Failure where
  /-- What was being done, from the outside in. -/
  contexts : List String := []
  cause : Cause
  deriving DecidableEq, Repr, Inhabited

namespace Failure

/-- The message of a failure. -/
def message (f : Failure) : String :=
  ": ".intercalate (f.contexts ++ [f.cause.text])

/-- The failure as it is seen from outside of what was being done. -/
def within (context : String) (f : Failure) : Failure :=
  { f with contexts := context :: f.contexts }

end Failure

/-- What may fail. -/
abbrev Attempt := Except Failure

namespace Attempt

/-- What may fail because of the configuration. -/
def config {α : Type} (x : Except ConfigError α) : Attempt α :=
  x.mapError fun e => { cause := .config e }

/-- What may fail because of the history. -/
def history {α : Type} (x : Except HistoryError α) : Attempt α :=
  x.mapError fun e => { cause := .history e }

/-- What may fail because of a version. -/
def version {α : Type} (x : Except VersionError α) : Attempt α :=
  x.mapError fun e => { cause := .version e }

/-- What may fail because of a commit message. -/
def message {α : Type} (x : Except MessageError α) : Attempt α :=
  x.mapError fun e => { cause := .message e }

/-- What may fail because of a file. -/
def file {α : Type} (x : Except FileError α) : Attempt α :=
  x.mapError fun e => { cause := .file e }

/-- Says what is being done, in case that fails. -/
def within {α : Type} (context : String) (x : Attempt α) : Attempt α :=
  x.mapError (Failure.within context)

end Attempt

end ConventionalRelease
