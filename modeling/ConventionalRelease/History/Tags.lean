import ConventionalRelease.History.Glob
import ConventionalRelease.History.Repository

/-!
# Tags in order

The tags that a filter admits are listed by the time they were made, the oldest first, and by name
where the time is the same. A tag without a time stands before the others.
-/

namespace ConventionalRelease

/-- A tag with the time it was made. -/
structure TagInfo where
  name : String
  /-- When the tag was made, or the commit if nobody tagged it. -/
  date : Option Instant
  deriving DecidableEq, Repr, Inhabited

namespace TagInfo

/-- Whether a time is not after another; none is before all others. -/
def dateLE : Option Instant → Option Instant → Bool
  | none, _ => true
  | some _, none => false
  | some a, some b => a.seconds ≤ b.seconds

/-- Whether a tag stands before another or is that tag. -/
def le (a b : TagInfo) : Bool :=
  if a.date = b.date then a.name ≤ b.name else dateLE a.date b.date

end TagInfo

/-- Whether the filter admits a name; an empty one admits all. -/
def filterAdmits (filter name : String) : Bool :=
  filter = "" || Glob.admits filter name

namespace Repository

/-- The tags that the filter admits, in order. -/
def tagsIn (r : Repository) (filter : String) : List TagInfo :=
  let admitted := r.tags.filter fun (name, _) => filterAdmits filter name
  (admitted.map fun (name, tagged) =>
    ⟨name, tagged.time?.bind (Instant.ofParts? · 0)⟩).mergeSort TagInfo.le

/-- The last tag. -/
def lastTag? (r : Repository) (filter : String) : Option TagInfo :=
  (r.tagsIn filter).getLast?

/-- The tag with the name. -/
def findTag (r : Repository) (name filter : String) : Except HistoryError TagInfo :=
  match (r.tagsIn filter).find? (·.name = name) with
  | some info => .ok info
  | none => .error (.unknownTag name)

/-- The tag before the one with the name, if it is not the first. -/
def previousTag (r : Repository) (name filter : String) : Except HistoryError (Option TagInfo) :=
  let tags := r.tagsIn filter
  match tags.findIdx? (·.name = name) with
  | some 0 => .ok none
  | some (i + 1) => .ok tags[i]?
  | none => .error (.unknownTag name)

/-! ## A new tag -/

/-- A character that the name of a tag may hold. -/
def isNameCharacter (c : Char) : Bool :=
  c.toNat > 0x20 && c ∉ ['~', '^', ':', '\\', '?', '[', '*']

/-- The ending of the names of files that lock others. -/
def lockEnding : List Char := ['.', 'l', 'o', 'c', 'k']

/-- Whether the text can stand between the slashes of a name. -/
def isNamePart (s : List Char) : Bool :=
  !s.isEmpty && s.all isNameCharacter && s.head? ≠ some '.' &&
    !(s.zip s.tail).any (fun pair => pair = ('.', '.') || pair = ('@', '\x7b')) &&
    !(lockEnding.isSuffixOf s)

/-- Whether the text can be the name of a tag. -/
def isTagName (name : String) : Bool :=
  (Text.splitAt '/' name.toList).all isNamePart && name.toList.head? ≠ some '-' &&
    name.toList.getLast? ≠ some '.'

/-- Whether one name is the other with a slash and more after it, or the other way round. The two
cannot be kept side by side. -/
def namesCollide (a b : String) : Bool :=
  (a.toList ++ ['/']).isPrefixOf b.toList || (b.toList ++ ['/']).isPrefixOf a.toList

/-- Whether a tag can be made under a name that is not taken: the commit that is checked out is
tagged, it is known who tags it, and the name can be kept. -/
def canTag (r : Repository) (name : String) : Bool :=
  r.hasCommits && r.hasIdentity && isTagName name && !r.tags.any fun (other, _) =>
    namesCollide name other

/-- A new tag for the commit that is checked out. -/
def newTag (r : Repository) (name : String) (now : Instant) : Except HistoryError TagInfo :=
  if (r.tags.lookup name).isSome then .error (.tagExists name)
  else if r.canTag name then .ok ⟨name, some now⟩
  else .error .refused

end Repository

end ConventionalRelease
