import ConventionalRelease.Files.Path
import ConventionalRelease.Regex.Token

/-!
# Errors of a configuration
-/

namespace ConventionalRelease

/-- Why a configuration cannot be used. -/
inductive ConfigError where
  /-- There is no such file. -/
  | notFound (path : Path)
  /-- The file is no configuration. -/
  | malformed (path : Path) (message : String)
  /-- A field has a value that it cannot have. -/
  | invalidValue (field message : String)
  /-- A field holds a text that is no pattern. -/
  | invalidPattern (field pattern : String) (cause : Regex.Error)
  /-- Two sections list the same commit type. -/
  | duplicateType (type first second : String)
  /-- Two sections collect breaking changes. -/
  | severalBreaking (first second : String)
  /-- The document does not have the shape of a configuration. -/
  | schema
  /-- The text is no YAML document. -/
  | yaml
  /-- The text is no TOML document. -/
  | toml
  /-- The file cannot be read. -/
  | unreadable
  deriving DecidableEq, Repr, Inhabited

/-- The message of an error, up to the words of the format's own diagnosis. -/
def ConfigError.message : ConfigError → String
  | notFound path => "Configuration file not found at " ++ path.render
  | malformed path message => "Failed to parse configuration " ++ path.render ++ ": " ++ message
  | invalidValue field message => "Invalid configuration: " ++ field ++ " - " ++ message
  | invalidPattern field pattern _ =>
    "Invalid regex on " ++ field ++ ": " ++ pattern ++ ": regex parse error:"
  | duplicateType type first second =>
    "Commit type '" ++ type ++ "' is listed in both '" ++ first ++ "' and '" ++ second ++
      "' release-note sections"
  | severalBreaking first second =>
    "Only one breaking-changes release-note section is allowed, found '" ++ first ++ "' and '" ++
      second ++ "'"
  | schema => "Configuration schema error:"
  | yaml => "YAML error:"
  | toml => "TOML parsing error:"
  | unreadable => "IO error reading config:"

end ConventionalRelease
