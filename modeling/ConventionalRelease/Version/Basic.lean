import ConventionalRelease.Text.Lines

/-!
# Versions

A semantic version: three numbers of 64 bits, the identifiers of a pre-release, and the identifiers
of a build. What an identifier may be is part of the type, so every version has a text that reads
back.
-/

namespace ConventionalRelease

/-- A character of an identifier: a letter, a digit or a hyphen of ASCII. -/
def isIdentifierChar (c : Char) : Bool :=
  c.isAlphanum || c == '-'

/-- An identifier of a build: one character or more. -/
def isBuildIdentifier (s : List Char) : Bool :=
  !s.isEmpty && s.all isIdentifierChar

/-- Whether a number is written with a zero in front. -/
def hasLeadingZero (s : List Char) : Bool :=
  1 < s.length && s.all Char.isDigit && s.head? == some '0'

/-- An identifier of a pre-release: as for a build, but a number has no zero in front. -/
def isPreIdentifier (s : List Char) : Bool :=
  isBuildIdentifier s && !hasLeadingZero s

/-- A list of identifiers of one kind. -/
structure Identifiers (isIdentifier : List Char → Bool) where
  /-- The identifiers in order. -/
  parts : List (List Char)
  /-- Each is an identifier of the kind. -/
  valid : ∀ p ∈ parts, isIdentifier p = true
  deriving DecidableEq

namespace Identifiers

variable {isIdentifier : List Char → Bool}

/-- No identifiers. -/
def empty : Identifiers isIdentifier := ⟨[], by simp⟩

instance : EmptyCollection (Identifiers isIdentifier) := ⟨empty⟩

instance : Inhabited (Identifiers isIdentifier) := ⟨empty⟩

/-- Whether there are no identifiers. -/
def isEmpty (ids : Identifiers isIdentifier) : Bool := ids.parts.isEmpty

/-- The identifiers with dots between them. -/
def text (ids : Identifiers isIdentifier) : List Char := Text.join ['.'] ids.parts

end Identifiers

/-- A version. -/
structure Version where
  /-- Changes when something breaks. -/
  major : UInt64
  /-- Changes when something is added. -/
  minor : UInt64
  /-- Changes when something is mended. -/
  patch : UInt64
  /-- The identifiers of a pre-release; none for a release. -/
  pre : Identifiers isPreIdentifier := ∅
  /-- The identifiers of a build. -/
  build : Identifiers isBuildIdentifier := ∅
  deriving DecidableEq, Inhabited

/-- The digits of a number. -/
def decimal (n : UInt64) : List Char :=
  Nat.toDigits 10 n.toNat

namespace Version

/-- The three numbers with dots between them. -/
def coreText (v : Version) : List Char :=
  decimal v.major ++ '.' :: decimal v.minor ++ '.' :: decimal v.patch

/-- The characters of a version: the numbers, the pre-release after a hyphen, the build after a
plus. -/
def characters (v : Version) : List Char :=
  v.coreText ++ (if v.pre.isEmpty then [] else '-' :: v.pre.text) ++
    (if v.build.isEmpty then [] else '+' :: v.build.text)

/-- The text of a version. -/
def text (v : Version) : String := String.ofList v.characters

/-- The first version of all, before any release. -/
def zero : Version := { major := 0, minor := 0, patch := 0 }

end Version

end ConventionalRelease
