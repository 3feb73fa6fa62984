import ConventionalRelease.Commit.Message
import ConventionalRelease.Version.Basic
import ConventionalRelease.Version.Error

/-!
# The next version

Each commit calls for a release of some level; the highest level among the commits since the last
release decides which number of the version is raised.
-/

namespace ConventionalRelease

/-- The level of a release: which number of the version it raises. -/
inductive Bump where
  | none
  | patch
  | minor
  | major
  deriving DecidableEq, Repr, Inhabited

namespace Bump

/-- The place of a level in the order of levels. -/
def rank : Bump → Nat
  | none => 0
  | patch => 1
  | minor => 2
  | major => 3

instance : LE Bump := ⟨fun a b => a.rank ≤ b.rank⟩

instance (a b : Bump) : Decidable (a ≤ b) :=
  inferInstanceAs (Decidable (a.rank ≤ b.rank))

/-- The higher of two levels. -/
def max (a b : Bump) : Bump := if a ≤ b then b else a

/-- The order of two levels. -/
def compare (a b : Bump) : Ordering := Ord.compare a.rank b.rank

/-- The word for a level. -/
def word : Bump → String
  | none => "none"
  | patch => "patch"
  | minor => "minor"
  | major => "major"

end Bump

/-- A number of a version raised by one, unless it is the greatest there is. -/
def raise? (n : UInt64) : Option UInt64 :=
  if n.toNat + 1 < UInt64.size then some (n + 1) else none

/-- The version after a release of the level. A pre-release is released by a patch as it is. What is
released has neither pre-release nor build. -/
def Version.bump (v : Version) (level : Bump) : Except VersionError Version :=
  let raised (n : UInt64) (next : UInt64 → Version) : Except VersionError Version :=
    match raise? n with
    | some n => .ok (next n)
    | none => .error (.overflow v.text)
  match level with
  | .none => .ok v
  | .patch =>
    if v.pre.isEmpty then
      raised v.patch fun n => { major := v.major, minor := v.minor, patch := n }
    else .ok { major := v.major, minor := v.minor, patch := v.patch }
  | .minor => raised v.minor fun n => { major := v.major, minor := n, patch := 0 }
  | .major => raised v.major fun n => { major := n, minor := 0, patch := 0 }

/-- The rules for versions together with the known commit types. -/
structure ReleasePolicy where
  /-- Which types call for which release. -/
  rules : VersioningRules
  knownTypes : List String
  deriving DecidableEq, Repr, Inhabited

/-- What follows from a list of commits for the version. -/
structure Decision where
  /-- The next version; missing when there is no current one. -/
  version : Option Version
  /-- The level of the release. -/
  level : Bump
  /-- Whether there is anything to release. -/
  updated : Bool
  deriving DecidableEq, Inhabited

namespace ReleasePolicy

/-- The policy of a configuration. -/
def ofConfig (config : Config) : ReleasePolicy :=
  ⟨config.versioning, config.messages.types⟩

/-- The level that one commit calls for. -/
def classify (policy : ReleasePolicy) (m : CommitMessage) : Bump :=
  if m.breaking || m.type ∈ policy.rules.major then .major
  else if m.type ∈ policy.rules.minor then .minor
  else if m.type ∈ policy.rules.patch then .patch
  else if policy.rules.unknownAsPatch && m.type ∉ policy.knownTypes then .patch
  else .none

/-- The highest level that the commits call for. -/
def aggregate (policy : ReleasePolicy) (commits : List LogEntry) : Bump :=
  (commits.map fun c => policy.classify c.message).foldl Bump.max .none

/-- The version after a release of the level, and at least 0.1.0. -/
def nextVersion (current : Version) (level : Bump) : Except VersionError Version := do
  let next ← current.bump level
  if next.major = 0 && next.minor = 0 then current.bump .minor else return next

/-- What follows from the commits since the current version. -/
def decide (policy : ReleasePolicy) (current : Option Version) (commits : List LogEntry) :
    Except VersionError Decision := do
  let level := policy.aggregate commits
  let version ← current.mapM (nextVersion · level)
  return { version, level, updated := level ≠ .none }

end ReleasePolicy

end ConventionalRelease
