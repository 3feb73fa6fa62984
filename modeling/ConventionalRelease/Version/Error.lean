import ConventionalRelease.Text.Quoted

/-!
# Errors of a version
-/

namespace ConventionalRelease

/-- A part of the text of a version. -/
inductive VersionPart where
  | major
  | minor
  | patch
  | pre
  | build
  deriving DecidableEq, Repr, Inhabited

/-- What a part is called. -/
def VersionPart.name : VersionPart → String
  | major => "major version number"
  | minor => "minor version number"
  | patch => "patch version number"
  | pre => "pre-release identifier"
  | build => "build metadata"

/-- What is wrong with the text of a version. -/
inductive VersionFault where
  /-- There is no text. -/
  | empty
  /-- The text ends before the part is complete. -/
  | unexpectedEnd (part : VersionPart)
  /-- Another character stands where the part should start. -/
  | unexpectedChar (part : VersionPart) (c : Char)
  /-- Another character follows the part. -/
  | unexpectedCharAfter (part : VersionPart) (c : Char)
  /-- A number has a zero in front. -/
  | leadingZero (part : VersionPart)
  /-- A number does not fit in 64 bits. -/
  | tooLarge (part : VersionPart)
  /-- An identifier is empty. -/
  | emptyIdentifier (part : VersionPart)
  deriving DecidableEq, Repr, Inhabited

/-- The description of a fault. -/
def VersionFault.message : VersionFault → String
  | empty => "empty string, expected a semver version"
  | unexpectedEnd part => "unexpected end of input while parsing " ++ part.name
  | unexpectedChar part c =>
    "unexpected character " ++ Text.quoteChar c ++ " while parsing " ++ part.name
  | unexpectedCharAfter part c =>
    "unexpected character " ++ Text.quoteChar c ++ " after " ++ part.name
  | leadingZero part => "invalid leading zero in " ++ part.name
  | tooLarge part => "value of " ++ part.name ++ " exceeds u64::MAX"
  | emptyIdentifier part => "empty identifier segment in " ++ part.name

/-- Why there is no version. -/
inductive VersionError where
  /-- The text is no version. -/
  | malformed (text : String) (fault : VersionFault)
  /-- The number to raise is the greatest there is. -/
  | overflow (text : String)
  deriving DecidableEq, Repr, Inhabited

/-- The message of an error. -/
def VersionError.message : VersionError → String
  | malformed text fault => "Failed to parse version '" ++ text ++ "': " ++ fault.message
  | overflow text => "Version '" ++ text ++ "' cannot be bumped further"

end ConventionalRelease
