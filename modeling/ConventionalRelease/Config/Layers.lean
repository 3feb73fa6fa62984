import ConventionalRelease.Config.Document
import ConventionalRelease.Config.Validation
import ConventionalRelease.Document.Merge
import ConventionalRelease.Files.Tree
import ConventionalRelease.Toml.Reader
import ConventionalRelease.Yaml.Reader

/-!
# Layers of configuration

A configuration is made up of layers: the defaults, the file of the user and the file of the
repository. Each layer is merged over those before it, so a file only needs the keys that it
changes. The file of the repository is looked for in the working directory and those above it, the
nearest first.
-/

namespace ConventionalRelease

/-! ## Reading layers -/

/-- The extension of a file in TOML; any other file is in YAML. -/
def tomlExtension : String := "toml"

/-- Reads a text in the format that the name of its file calls for. -/
def readConfigText (path : Path) (text : String) : Except ConfigError Document :=
  if path.extension? = some tomlExtension then
    (Toml.read? text).elim (.error .toml) .ok
  else (Yaml.read? text).elim (.error .yaml) .ok

/-- Reads a file of configuration, which holds a mapping or nothing. -/
def readLayer (tree : FileTree) (path : Path) : Except ConfigError Document := do
  let text ← (tree.text? path).elim (.error .unreadable) .ok
  let document ← readConfigText path text
  match document with
  | .mapping _ | .null => return document
  | _ => throw (.malformed path "top level must be a mapping")

/-- Reads files of configuration and merges them over the defaults, each over those before it. -/
def Config.ofLayers (tree : FileTree) (paths : List Path) : Except ConfigError Config := do
  let documents ← paths.mapM (readLayer tree)
  let document := (Config.toDocument {}).mergeAll documents
  let config ← (Config.ofDocument? document).elim (.error .schema) .ok
  config.validate
  return config

/-- Reads one file of configuration, which has to be there. -/
def Config.load (tree : FileTree) (path : Path) : Except ConfigError Config :=
  if tree.has path then Config.ofLayers tree [path] else .error (.notFound path)

/-! ## Finding layers -/

/-- The directory for files of configuration. -/
def configDirectory : String := ".relnote"

/-- The names of a file of configuration in a directory of its own, the preferred first. -/
def configNames : List String := ["config.yml", "config.yaml", "config.toml"]

/-- The names of a file of configuration among other files, the preferred first. -/
def rootConfigNames : List String := ["relnote.yml", "relnote.yaml", "relnote.toml"]

/-- The file of configuration in a directory: in a directory of its own, or else among the other
files. -/
def configIn? (tree : FileTree) (directory : Path) : Option Path :=
  (tree.firstFile? (directory ++ [configDirectory]) configNames).orElse fun _ =>
    tree.firstFile? directory rootConfigNames

/-- Looks in the directory whose names are given, the last one first, and then in those above it.
The root is the last one to be looked in. -/
def findConfigUp? (tree : FileTree) : List String → Option Path
  | [] => configIn? tree []
  | name :: above => (configIn? tree (name :: above).reverse).orElse fun _ =>
      findConfigUp? tree above

/-- The file of configuration for a directory: the first there is in it or those above it. -/
def findConfig? (tree : FileTree) (directory : Path) : Option Path :=
  findConfigUp? tree directory.reverse

/-- Where the files of the user may be. -/
structure UserDirectories where
  /-- The directory for this program alone. -/
  own : Option Path := none
  /-- The directory for the configuration of all programs. -/
  shared : Option Path := none
  deriving DecidableEq, Repr, Inhabited

/-- The directory for the configuration of this program. -/
def UserDirectories.directory? (dirs : UserDirectories) : Option Path :=
  dirs.own.orElse fun _ => dirs.shared.map (· ++ ["relnote"])

/-- The file of configuration of the user. -/
def userConfig? (tree : FileTree) (dirs : UserDirectories) : Option Path :=
  dirs.directory?.bind (tree.firstFile? · configNames)

/-- The files that make up the configuration for a directory. -/
def configLayers (tree : FileTree) (dirs : UserDirectories) (directory : Path) : List Path :=
  (userConfig? tree dirs).toList ++ (findConfig? tree directory).toList

/-- The configuration for a directory, and the files that make it up. -/
def effectiveConfig (tree : FileTree) (dirs : UserDirectories) (directory : Path) :
    Except ConfigError (Config × List Path) := do
  let layers := configLayers tree dirs directory
  let config ← Config.ofLayers tree layers
  return (config, layers)

end ConventionalRelease
