import ConventionalRelease.Proofs.Version.Text

/-!
# The order of versions

Versions are compared by their first number, then by the second one, then by the third. Among plain
versions this is the precedence of versions, since they differ in nothing else.
-/

namespace ConventionalRelease.Version

/-- Whether the numbers of a version come before those of another. -/
def NumbersLT (v w : Version) : Prop :=
  v.major < w.major ∨ (v.major = w.major ∧
    (v.minor < w.minor ∨ (v.minor = w.minor ∧ v.patch < w.patch)))

/-- No version comes before itself. -/
theorem NumbersLT.irrefl (v : Version) : ¬ v.NumbersLT v := by
  rintro (h | ⟨-, h | ⟨-, h⟩⟩)
  · exact UInt64.lt_irrefl _ h
  · exact UInt64.lt_irrefl _ h
  · exact UInt64.lt_irrefl _ h

/-- What comes before an earlier version comes before a later one. -/
theorem NumbersLT.trans {u v w : Version} (huv : u.NumbersLT v) (hvw : v.NumbersLT w) :
    u.NumbersLT w := by
  simp only [NumbersLT, UInt64.lt_iff_toNat_lt, ← UInt64.toNat_inj] at huv hvw ⊢
  omega

/-- Plain versions with the same text are the same. -/
theorem eq_of_coreText_eq {v w : Version} (hv : v.isPlain = true) (hw : w.isPlain = true)
    (h : v.coreText = w.coreText) : v = w := by
  have hread := read_characters v
  rw [characters_of_isPlain hv, h, ← characters_of_isPlain hw, read_characters w] at hread
  exact (Except.ok.inj hread).symm

end ConventionalRelease.Version
