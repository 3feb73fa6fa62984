import ConventionalRelease.Text.Blank

/-!
# Headers

A conventional header is a type in small letters, a scope in parentheses if there is one, an
exclamation mark if the change breaks something, a colon and a space, and a description up to the
end of the line. `Header.parse?` reads one. `Header.isPlausible` is the looser form a checked header
must have: there the type may hold plus signs and the scope closing parentheses, but the scope may
not be empty.
-/

namespace ConventionalRelease

/-- The parts of a conventional header. -/
structure Header where
  type : List Char
  /-- The scope; empty when there is none. -/
  scope : List Char
  /-- Whether an exclamation mark stands before the colon. -/
  marked : Bool
  /-- What follows the colon and the space. -/
  description : List Char
  deriving DecidableEq, Repr, Inhabited

namespace Header

/-- Reads a scope in parentheses; without one the scope is empty and nothing is used up. -/
def readScope (s : List Char) : List Char × List Char :=
  match s with
  | '(' :: inside =>
    let scope := inside.takeWhile (· != ')')
    match inside.drop scope.length with
    | ')' :: rest => (scope, rest)
    | _ => ([], s)
  | _ => ([], s)

/-- Reads the mark of a change that breaks something. -/
def readMark : List Char → Bool × List Char
  | '!' :: rest => (true, rest)
  | rest => (false, rest)

/-- Reads a conventional header. -/
def parse? (s : List Char) : Option Header :=
  let type := s.takeWhile Char.isLower
  let (scope, afterScope) := readScope (s.drop type.length)
  let (marked, afterMark) := readMark afterScope
  match type, afterMark with
  | _ :: _, ':' :: ' ' :: description =>
    if '\n' ∈ description then none else some { type, scope, marked, description }
  | _, _ => none

/-- An optional mark, a colon, a space and at least one character, all on one line. -/
def isTail (s : List Char) : Bool :=
  match (readMark s).2 with
  | ':' :: ' ' :: c :: rest => !(c :: rest).contains '\n'
  | _ => false

/-- Some closing parenthesis of the line, not the first character of the scope, is followed by the
tail of a header. -/
def closesScope (started : Bool) : List Char → Bool
  | [] => false
  | c :: rest =>
    (started && c == ')' && isTail rest) || (c != '\n' && closesScope true rest)

/-- The form that a checked header must have. -/
def isPlausible (s : List Char) : Bool :=
  let rest := s.dropWhile fun c => c.isLower || c == '+'
  rest.length < s.length && (isTail rest ||
    match rest with
    | '(' :: inside => closesScope false inside
    | _ => false)

end Header

/-- Whether a description starts the way a checked one must: with a small letter. -/
def startsLower (description : List Char) : Bool :=
  description.head?.any Char.isLower

end ConventionalRelease
