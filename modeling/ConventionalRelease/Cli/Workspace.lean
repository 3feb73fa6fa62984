import ConventionalRelease.Config.Layers
import ConventionalRelease.History.Checkout
import ConventionalRelease.History.Journal
import ConventionalRelease.Release.Failure

/-!
# Workspaces and outcomes

A command runs in a workspace: the files, a repository among them, a directory to start in, and the
present time. It changes nothing itself. Its outcome says what it prints, with which code it ends,
and which changes are to be made.
-/

namespace ConventionalRelease.Cli

/-- Where a command runs. -/
structure Workspace where
  files : FileTree
  /-- The checkout of a repository. -/
  checkout : Option Checkout := none
  /-- The directories of the user. -/
  user : UserDirectories := {}
  directory : Path
  now : Instant

/-- A change of a workspace. -/
inductive Change where
  /-- A file gets a text. -/
  | write (path : Path) (text : String)
  /-- Something is done in the repository. -/
  | record (event : Event)
  deriving DecidableEq, Repr, Inhabited

namespace Workspace

/-- The repository that the working directory is in. -/
def repository (w : Workspace) : Attempt Repository :=
  .history (Checkout.repository <$> Checkout.discover w.checkout w.files w.directory)

/-- The configuration for the working directory, and the files that make it up. -/
def config (w : Workspace) : Attempt (Config × List Path) :=
  .config (effectiveConfig w.files w.user w.directory)

/-- The workspace after a change. -/
def apply (w : Workspace) : Change → Workspace
  | .write path text => { w with files := w.files.set path (.file text) }
  | .record event =>
    { w with checkout := w.checkout.map fun c =>
        { c with repository := (c.repository.after? event).getD c.repository } }

/-- The workspace after changes, made one after the other. -/
def applyAll (w : Workspace) (changes : List Change) : Workspace :=
  changes.foldl apply w

end Workspace

/-! ## Outcomes -/

/-- What kind of notice a line is. -/
inductive NoticeKind where
  | done
  | failed
  /-- Something may be wrong. -/
  | warning
  /-- Something is worth knowing. -/
  | info
  deriving DecidableEq, Repr, Inhabited

/-- The mark in front of a notice. -/
def NoticeKind.mark : NoticeKind → String
  | done => "✓"
  | failed => "✗"
  | warning => "!"
  | info => "→"

/-- A line that accompanies the output. -/
structure Notice where
  /-- What kind of notice it is. -/
  kind : NoticeKind
  text : String
  deriving DecidableEq, Repr, Inhabited

/-- The line. -/
def Notice.line (n : Notice) : String :=
  n.kind.mark ++ " " ++ n.text

/-- What came of a command. -/
structure Outcome where
  code : Nat := 0
  output : String := ""
  /-- The notices, in order. -/
  notices : List Notice := []
  /-- The changes to make, in order. -/
  changes : List Change := []
  deriving DecidableEq, Repr, Inhabited

/-- What comes of a command line that cannot be read. -/
def Outcome.unreadable : Outcome := { code := 2 }

/-- What comes of a failure. -/
def Outcome.ofFailure (notices : List Notice) (f : Failure) : Outcome :=
  { code := f.cause.exitCode, notices := notices ++ [⟨.failed, f.message⟩] }

/-! ## Replies -/

/-- What a command has to say before it is known whether that can be put where it belongs. -/
structure Reply where
  text : String := ""
  /-- The file that the text is for; none if it is printed. -/
  destination : Option String := none
  /-- The notices, in order. -/
  notices : List Notice := []
  /-- The changes to make, in order. -/
  changes : List Change := []
  deriving DecidableEq, Repr, Inhabited

namespace Reply

/-- A text that is written to a file as it is, or printed as lines of which no blank one is the
last. -/
def document (text : String) (destination : Option String) : Reply :=
  match destination with
  | some path => { text, destination := some path }
  | none => { text := String.ofList (Text.trimEnd text.toList) ++ "\n" }

/-- The reply with a notice before the others if a condition holds. -/
def noting (reply : Reply) (condition : Bool) (kind : NoticeKind) (text : String) : Reply :=
  if condition then { reply with notices := ⟨kind, text⟩ :: reply.notices } else reply

/-- What comes of a reply in a workspace. -/
def outcome (reply : Reply) (w : Workspace) : Outcome :=
  match reply.destination with
  | none => { output := reply.text, notices := reply.notices, changes := reply.changes }
  | some text =>
    match Attempt.file (w.files.place w.directory text) with
    | .ok path =>
      { notices := reply.notices, changes := reply.changes ++ [.write path reply.text] }
    | .error f => .ofFailure reply.notices f

end Reply

end ConventionalRelease.Cli
