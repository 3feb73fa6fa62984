import ConventionalRelease.Regex.Token

/-!
# Patterns

A pattern is a regular expression with names for some of its groups. `Pattern.parse` reads one from
its text: tokens are taken in order, with the groups that are still open kept on a stack. A change
of flags holds up to the end of the group it stands in.

Characters are always those of Unicode, so the flag `u` changes nothing, switched off or on, and a
pattern may be of any size and depth.
-/

namespace ConventionalRelease

namespace Regex

/-- The flags in force. -/
structure Flags where
  /-- Letters match in either case. -/
  caseless : Bool := false
  /-- Anchors match at lines. -/
  multiLine : Bool := false
  /-- The dot matches a line feed. -/
  dotAll : Bool := false
  /-- Repetitions are lazy unless marked. -/
  swapGreed : Bool := false
  deriving DecidableEq, Repr, Inhabited

/-- The flags after a change. -/
def Flags.change (flags : Flags) : List (Flag × Bool) → Flags
  | [] => flags
  | (.caseless, on) :: rest => { flags with caseless := on }.change rest
  | (.multiLine, on) :: rest => { flags with multiLine := on }.change rest
  | (.dotAll, on) :: rest => { flags with dotAll := on }.change rest
  | (.swapGreed, on) :: rest => { flags with swapGreed := on }.change rest
  | (.unicode, _) :: rest => flags.change rest

/-- What has been read of a group: its finished alternatives and the parts of the current one,
latest first, with the flags in force. -/
structure Level where
  /-- The finished alternatives, latest first. -/
  branches : List Regex := []
  /-- The parts of the current alternative, latest first. -/
  items : List Regex := []
  /-- Whether a repetition may follow. -/
  repeatable : Bool := false
  /-- The flags in force. -/
  flags : Flags := {}
  deriving DecidableEq, Repr, Inhabited

namespace Level

/-- Adds a part to the current alternative. -/
def push (level : Level) (r : Regex) : Level :=
  { level with items := r :: level.items, repeatable := true }

/-- The expression of the current alternative. -/
def branch (level : Level) : Regex :=
  sequence level.items.reverse

/-- Ends the current alternative. -/
def nextBranch (level : Level) : Level :=
  { level with branches := level.branch :: level.branches, items := [], repeatable := false }

/-- The expression of the whole group. -/
def regex (level : Level) : Regex :=
  choice (level.branch :: level.branches).reverse

end Level

/-- What has been read of a pattern: the innermost open group, the groups around it, and the groups
counted and named so far. -/
structure Builder where
  level : Level := {}
  /-- The groups around it, innermost first, each with the index of the group opened in it. -/
  outer : List (Level × Option Nat) := []
  /-- The number of recorded groups so far. -/
  count : Nat := 0
  /-- The named groups so far, latest first. -/
  names : List (String × Nat) := []
  deriving DecidableEq, Repr, Inhabited

namespace Builder

/-- Adds a part to the innermost group. -/
def push (b : Builder) (r : Regex) : Builder :=
  { b with level := b.level.push r }

/-- Adds one character of a set, in either case if the flag is on. -/
def pushSet (b : Builder) (s : CharSet) : Builder :=
  b.push (.one (if b.level.flags.caseless then s.caseless else s))

/-- Opens a group. -/
def openGroup (b : Builder) (o : Opening) : Except Error Builder :=
  match o with
  | .plain changes =>
    pure { b with
      level := { flags := b.level.flags.change changes }
      outer := (b.level, none) :: b.outer }
  | .capture name =>
    let index := b.count + 1
    let opened := { b with
      level := { flags := b.level.flags }
      outer := (b.level, some index) :: b.outer
      count := index }
    match name with
    | none => pure opened
    | some name =>
      if b.names.any (·.1 == name) then throw .groupName
      else pure { opened with names := (name, index) :: b.names }

/-- Closes the innermost group. -/
def closeGroup (b : Builder) : Except Error Builder :=
  match b.outer with
  | [] => throw .groupUnopened
  | (level, index) :: outer =>
    let r := match index with
      | some index => .group index b.level.regex
      | none => b.level.regex
    pure { b with level := level.push r, outer := outer }

/-- Repeats the last part of the innermost group. -/
def repeatLast (b : Builder) (min : Nat) (max : Option Nat) (marked : Bool) :
    Except Error Builder :=
  match b.level.repeatable, b.level.items with
  | true, r :: rest =>
    let greedy := marked == b.level.flags.swapGreed
    pure { b with level := { b.level with items := repeated greedy r min max :: rest } }
  | _, _ => throw .nothingToRepeat

/-- Takes one token. -/
def step (b : Builder) : Token → Except Error Builder
  | .char c => pure (b.pushSet (.single c))
  | .set s => pure (b.pushSet s)
  | .dot => pure (b.push (.one (if b.level.flags.dotAll then .all else .exceptLineFeed)))
  | .start => pure (b.push (.anchor (if b.level.flags.multiLine then .lineStart else .textStart)))
  | .stop => pure (b.push (.anchor (if b.level.flags.multiLine then .lineEnd else .textEnd)))
  | .anchor a => pure (b.push (.anchor a))
  | .opening o => b.openGroup o
  | .closing => b.closeGroup
  | .bar => pure { b with level := b.level.nextBranch }
  | .repetition min max marked => b.repeatLast min max marked
  | .flags changes =>
    pure { b with level := { b.level with
      flags := b.level.flags.change changes, repeatable := false } }

/-- Takes the tokens in order. -/
def run (b : Builder) : List Token → Except Error Builder
  | [] => pure b
  | token :: rest => do (← b.step token).run rest

end Builder

end Regex

/-- A regular expression with names for groups. -/
structure Pattern where
  regex : Regex
  names : List (String × Nat)
  deriving DecidableEq, Repr, Inhabited

namespace Pattern

/-- The pattern that tokens write. -/
def ofTokens (tokens : List Regex.Token) : Except Regex.Error Pattern := do
  let b ← Regex.Builder.run {} tokens
  if b.outer.isEmpty then
    return ⟨b.level.regex, b.names⟩
  else
    throw .groupUnclosed

/-- Reads a pattern from its text. -/
def parse (text : List Char) : Except Regex.Error Pattern := do
  ofTokens (← Regex.Token.ofText text)

/-- The index of the group with the name, if the pattern has one. -/
def groupNamed? (p : Pattern) (name : String) : Option Nat :=
  (p.names.find? fun entry => entry.1 == name && entry.2 ∈ p.regex.groupIndices).map (·.2)

/-- The number of groups. -/
def groupCount (p : Pattern) : Nat := p.regex.groupCount

/-- The first match in a text. -/
def search (p : Pattern) (text : List Char) : Option Progress := p.regex.search text

/-- Whether the pattern matches somewhere in the text. -/
def matchesIn (p : Pattern) (text : List Char) : Bool := p.regex.matchesIn text

end Pattern

end ConventionalRelease
