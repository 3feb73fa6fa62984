import ConventionalRelease.Cli.Description
import ConventionalRelease.Cli.Run

/-!
# The command line

The arguments are a command, and the standard input describes the workspace that it runs in. The
output is printed, and the notices go to the standard error, followed by the changes to make, each
as a document on a line.
-/

open ConventionalRelease

/-- The exit code where the description of the workspace cannot be read. -/
def unreadableInput : UInt32 := 64

/-- Runs a command in the workspace that is described on the standard input. -/
def main (args : List String) : IO UInt32 := do
  let description ← (← IO.getStdin).readToEnd
  match (Yaml.read? description).bind Cli.Workspace.ofDocument? with
  | none =>
    IO.eprintln "The standard input does not describe a workspace."
    return unreadableInput
  | some workspace =>
    let outcome := Cli.run workspace args
    IO.print outcome.output
    for notice in outcome.notices do
      IO.eprintln notice.line
    for change in outcome.changes do
      IO.eprintln (Json.write .compact change.toDocument)
    return UInt32.ofNat outcome.code
