import ConventionalRelease.Proofs.Version.Order

/-!
# The precedence of versions

Versions are ordered by their numbers, and versions of the same numbers by what is released: a
pre-release comes before its release, and pre-releases are compared by their identifiers. The build
does not count. What has smaller numbers comes first (`NumbersLT.precedes`), and so does a
pre-release of the same numbers (`precedes_released`).
-/

namespace ConventionalRelease

attribute [local instance] lexOrd

/-- What an identifier of a pre-release is compared by: a number, which stands before every word, by
its value, and a word by its characters. -/
def identifierRank (s : List Char) : Nat × List Nat :=
  if s.all Char.isDigit then (0, [Nat.ofDigitChars 10 s 0]) else (1, s.map Char.toNat)

namespace Version

/-- What a version is compared by: its numbers, whether it is a release, and the identifiers of its
pre-release. -/
def rank (v : Version) : UInt64 × UInt64 × UInt64 × Nat × List (Nat × List Nat) :=
  (v.major, v.minor, v.patch, if v.pre.isEmpty then 1 else 0, v.pre.parts.map identifierRank)

/-- The order of versions. -/
def precedence (v w : Version) : Ordering :=
  compare v.rank w.rank

instance : Std.TransCmp precedence :=
  inferInstanceAs (Std.TransCmp (compareOn rank))

/-- Whether a version comes before another. -/
def Precedes (v w : Version) : Prop :=
  v.precedence w = .lt

instance (v w : Version) : Decidable (v.Precedes w) :=
  inferInstanceAs (Decidable (_ = _))

/-- Whether a version does not come after another. -/
def AtMost (v w : Version) : Prop :=
  (v.precedence w).isLE = true

instance (v w : Version) : Decidable (v.AtMost w) :=
  inferInstanceAs (Decidable (_ = _))

variable {u v w : Version}

theorem AtMost.refl (v : Version) : v.AtMost v := by
  have hself : v.precedence v = .eq := Std.ReflCmp.compare_self
  rw [AtMost, hself]
  rfl

theorem AtMost.trans (huv : u.AtMost v) (hvw : v.AtMost w) : u.AtMost w :=
  Std.TransCmp.isLE_trans huv hvw

theorem Precedes.atMost (h : v.Precedes w) : v.AtMost w := by
  rw [AtMost, h]
  rfl

/-- Of two versions one comes before the other or does not come after it. -/
theorem precedes_of_not_atMost (h : ¬ w.AtMost v) : v.Precedes w :=
  Std.OrientedCmp.lt_of_not_isLE h

theorem Precedes.not_atMost (h : v.Precedes w) : ¬ w.AtMost v :=
  Std.OrientedCmp.not_isLE_of_lt h

/-- The numbers are compared first. -/
theorem precedence_eq (v w : Version) :
    v.precedence w =
      (compare v.major w.major).then ((compare v.minor w.minor).then ((compare v.patch w.patch).then
      ((compare (if v.pre.isEmpty then 1 else 0) (if w.pre.isEmpty then 1 else 0)).then
        (compare (v.pre.parts.map identifierRank) (w.pre.parts.map identifierRank))))) :=
  rfl

/-- A version with smaller numbers comes first, whatever its pre-release is. -/
theorem NumbersLT.precedes (h : v.NumbersLT w) : v.Precedes w := by
  rw [Precedes, precedence_eq]
  rcases h with hmajor | ⟨hmajor, hminor | ⟨hminor, hpatch⟩⟩
  · rw [Std.compare_eq_lt.2 hmajor]
    rfl
  · rw [hmajor, Std.compare_self, Std.compare_eq_lt.2 hminor]
    rfl
  · rw [hmajor, hminor, Std.compare_self, Std.compare_self, Std.compare_eq_lt.2 hpatch]
    rfl

/-- A pre-release comes before what is released of it. -/
theorem precedes_released (h : v.pre.isEmpty = false) :
    v.Precedes { major := v.major, minor := v.minor, patch := v.patch } := by
  rw [Precedes, precedence_eq, Std.compare_self, Std.compare_self, Std.compare_self, h]
  rfl

/-- Pre-releases of a version in their order, up to the release. -/
example :
    (["1.0.0-alpha", "1.0.0-alpha.1", "1.0.0-alpha.beta", "1.0.0-beta", "1.0.0-beta.2",
      "1.0.0-beta.11",
    "1.0.0-rc.1", "1.0.0+build"].map fun text => ((parse text).toOption.getD zero)).IsChain
      fun v w => v.precedence w = .lt := by
  decide

end Version

end ConventionalRelease
