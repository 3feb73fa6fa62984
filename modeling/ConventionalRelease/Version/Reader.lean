import ConventionalRelease.Version.Basic
import ConventionalRelease.Version.Error

/-!
# Reading versions

`Version.read` reads the exact form of a semantic version from left to right and tells what is wrong
at the first character that does not fit. `Version.parse` reads the name of a tag: it drops a `v` in
front, takes an empty text for version 0.0.0, and fills up one or two plain numbers with zeros.
-/

namespace ConventionalRelease

/-- The numbers of a version are below this. -/
def numberBound : Nat := UInt64.size

/-- The value of a digit. -/
def digitValue (c : Char) : Nat :=
  c.toNat - '0'.toNat

/-- Reads on in a number whose digits so far have a value; `started` tells whether there were
any. -/
def readNumberFrom (part : VersionPart) (value : Nat) (started : Bool) :
    List Char → Except VersionFault (Nat × List Char)
  | [] => if started then .ok (value, []) else .error (.unexpectedEnd part)
  | c :: rest =>
    if c.isDigit then
      if started && value == 0 then .error (.leadingZero part)
      else
        let next := 10 * value + digitValue c
        if next < numberBound then readNumberFrom part next true rest else .error (.tooLarge part)
    else if started then .ok (value, c :: rest)
    else .error (.unexpectedChar part c)

/-- Reads a number. -/
def readNumber (part : VersionPart) (s : List Char) : Except VersionFault (UInt64 × List Char) := do
  let (value, rest) ← readNumberFrom part 0 false s
  return (UInt64.ofNat value, rest)

/-- Reads the dot after a number. -/
def readDot (part : VersionPart) : List Char → Except VersionFault (List Char)
  | '.' :: rest => .ok rest
  | c :: _ => .error (.unexpectedCharAfter part c)
  | [] => .error (.unexpectedEnd part)

/-- The identifiers between dots, each with its faults looked for from left to right. -/
def checkIdentifiers (part : VersionPart) (isIdentifier : List Char → Bool) :
    List (List Char) → Except VersionFault (Identifiers isIdentifier)
  | [] => .ok ∅
  | id :: more =>
    if id = [] then .error (.emptyIdentifier part)
    else if h : isIdentifier id = true then do
      let ids ← checkIdentifiers part isIdentifier more
      return ⟨id :: ids.parts, by simpa [h] using ids.valid⟩
    else .error (.leadingZero part)

/-- Reads identifiers with dots between them, up to the first character that can be in none. -/
def readIdentifiers (part : VersionPart) (isIdentifier : List Char → Bool) (s : List Char) :
    Except VersionFault (Identifiers isIdentifier × List Char) := do
  let inside := s.takeWhile fun c => isIdentifierChar c || c == '.'
  let ids ← checkIdentifiers part isIdentifier (Text.splitAt '.' inside)
  return (ids, s.drop inside.length)

namespace Version

/-- Reads the pre-release, if one follows. -/
def readPre : List Char → Except VersionFault (Identifiers isPreIdentifier × List Char)
  | '-' :: rest => readIdentifiers .pre isPreIdentifier rest
  | rest => .ok (∅, rest)

/-- Reads the build, if one follows. -/
def readBuild : List Char → Except VersionFault (Identifiers isBuildIdentifier × List Char)
  | '+' :: rest => readIdentifiers .build isBuildIdentifier rest
  | rest => .ok (∅, rest)

/-- Reads a version in its exact form. -/
def read (s : List Char) : Except VersionFault Version := do
  if s.isEmpty then throw .empty
  let (major, rest) ← readNumber .major s
  let rest ← readDot .major rest
  let (minor, rest) ← readNumber .minor rest
  let rest ← readDot .minor rest
  let (patch, rest) ← readNumber .patch rest
  let (pre, afterPre) ← readPre rest
  let (build, afterBuild) ← readBuild afterPre
  match afterBuild with
  | [] => return { major, minor, patch, pre, build }
  | c :: _ =>
    throw (.unexpectedCharAfter
      (if afterPre.head? == some '+' then .build
        else if rest.head? == some '-' then .pre else .patch) c)

/-- A plain number: digits with a plus in front of them or not, and zeros in front or not. -/
def plainNumber? (s : List Char) : Option UInt64 :=
  let digits := match s with
    | '+' :: rest => rest
    | _ => s
  if digits.isEmpty || !digits.all Char.isDigit then none
  else
    let value := Nat.ofDigitChars 10 digits 0
    if value < numberBound then some (UInt64.ofNat value) else none

/-- One or two plain numbers, filled up with zeros. -/
def padded? (s : List Char) : Option Version :=
  match Text.splitAt '.' s with
  | [major] => do return { major := ← plainNumber? major, minor := 0, patch := 0 }
  | [major, minor] => do
    return { major := ← plainNumber? major, minor := ← plainNumber? minor, patch := 0 }
  | _ => none

/-- The name of a tag without one `v` in front. -/
def dropMark : List Char → List Char
  | 'v' :: rest => rest
  | s => s

/-- Reads the name of a tag as a version. -/
def parse (name : String) : Except VersionError Version :=
  let s := dropMark name.toList
  if s.isEmpty then .ok zero
  else match read s with
    | .ok v => .ok v
    | .error fault =>
      match padded? s with
      | some v => .ok v
      | none => .error (.malformed (String.ofList s) fault)

/-- Whether the name of a tag can be read as a version. -/
def isVersion (name : String) : Bool :=
  match parse name with
  | .ok _ => true
  | .error _ => false

end Version

end ConventionalRelease
