import ConventionalRelease.Config.Basic
import ConventionalRelease.Text.Substitute
import ConventionalRelease.Version.Basic

/-!
# Names of tags

The pattern of a tag holds placeholders, which stand for the version or one of its numbers.
-/

namespace ConventionalRelease

/-- The name of the tag of a version. -/
def TagRules.name (rules : TagRules) (v : Version) : String :=
  let s := Text.substitute "\x7bversion\x7d".toList v.characters rules.pattern.toList
  let s := Text.substitute "\x7bmajor\x7d".toList (decimal v.major) s
  let s := Text.substitute "\x7bminor\x7d".toList (decimal v.minor) s
  let s := Text.substitute "\x7bpatch\x7d".toList (decimal v.patch) s
  String.ofList s

end ConventionalRelease
