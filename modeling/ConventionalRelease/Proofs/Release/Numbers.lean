import ConventionalRelease.Proofs.Attempt
import ConventionalRelease.Proofs.Release.Levels
import ConventionalRelease.Proofs.Version.Order

/-!
# Numbers without a bound

What a release makes of the numbers of a version can be said without a bound on them
(`Numbers.raised`), and so can the next version, which is at least 0.1.0 (`Numbers.next`). With 64
bits for each number a release fails if the number that it raises is the greatest there is, and
otherwise makes the same of the numbers (`Version.bump_cases`); so it is with the next version
(`ReleasePolicy.nextVersion_cases`). The higher the level, the later are the numbers
(`Numbers.next_mono`).
-/

namespace ConventionalRelease

/-- The three numbers of a version, however great they are. -/
structure Numbers where
  major : Nat
  minor : Nat
  patch : Nat
  deriving DecidableEq, Repr

namespace Numbers

variable {n : Numbers} {isRelease : Bool} {level : Bump}

/-- The numbers after a release of the level. The numbers of a pre-release are released by a patch
as they are. -/
def raised (n : Numbers) (isRelease : Bool) : Bump → Numbers
  | .none => n
  | .patch => if isRelease then { n with patch := n.patch + 1 } else n
  | .minor => { n with minor := n.minor + 1, patch := 0 }
  | .major => { major := n.major + 1, minor := 0, patch := 0 }

/-- The numbers are those of a version below 0.1.0. -/
def BelowFirst (n : Numbers) : Prop :=
  n.major = 0 ∧ n.minor = 0

instance (n : Numbers) : Decidable n.BelowFirst :=
  inferInstanceAs (Decidable (_ ∧ _))

/-- The numbers after a release of the level, and at least those of 0.1.0. -/
def next (n : Numbers) (isRelease : Bool) (level : Bump) : Numbers :=
  if (n.raised isRelease level).BelowFirst then n.raised isRelease .minor
  else n.raised isRelease level

/-- Whether numbers come before others: the first ones that differ decide. -/
def Before (n m : Numbers) : Prop :=
  n.major < m.major ∨
    (n.major = m.major ∧ (n.minor < m.minor ∨ (n.minor = m.minor ∧ n.patch < m.patch)))

/-- Only what is below 0.1.0 stays below it. -/
theorem belowFirst_of_raised (h : (n.raised isRelease level).BelowFirst) : n.BelowFirst := by
  cases level with
  | none => exact h
  | patch => cases isRelease <;> exact h
  | minor => exact absurd h.2 (Nat.succ_ne_zero _)
  | major => exact absurd h.1 (Nat.succ_ne_zero _)

/-- A release raises the numbers, unless it is that of a pre-release as it is. -/
theorem before_raised (hrelease : level = .patch → isRelease = true) (hlevel : level ≠ .none) :
    n.Before (n.raised isRelease level) := by
  cases level with
  | none => exact absurd rfl hlevel
  | patch =>
    rw [hrelease rfl]
    exact .inr ⟨rfl, .inr ⟨rfl, Nat.lt_succ_self _⟩⟩
  | minor => exact .inr ⟨rfl, .inl (Nat.lt_succ_self _)⟩
  | major => exact .inl (Nat.lt_succ_self _)

/-- What is below 0.1.0 becomes 0.1.0, unless it becomes 1.0.0. -/
theorem next_of_belowFirst (h : n.BelowFirst) (hlevel : level ≠ .major) :
    n.next isRelease level = ⟨0, 1, 0⟩ := by
  obtain ⟨major, minor, patch⟩ := n
  obtain ⟨rfl, rfl⟩ : major = 0 ∧ minor = 0 := h
  cases level with
  | none => rfl
  | patch => cases isRelease <;> rfl
  | minor => rfl
  | major => exact absurd rfl hlevel

/-- What is not below 0.1.0 becomes what the release makes of it. -/
theorem next_of_not_belowFirst (h : ¬ n.BelowFirst) :
    n.next isRelease level = n.raised isRelease level :=
  if_neg fun hraised => h (belowFirst_of_raised hraised)

/-- The higher the level, the later are the numbers that a release makes. -/
theorem raised_mono {lower higher : Bump} (h : lower ≤ higher) :
    n.raised isRelease lower = n.raised isRelease higher ∨
      (n.raised isRelease lower).Before (n.raised isRelease higher) := by
  cases higher with
  | none =>
    obtain rfl : lower = .none := Bump.le_antisymm h (Bump.none_le lower)
    exact .inl rfl
  | patch =>
    cases lower with
    | none =>
      cases isRelease with
      | true => exact .inr (before_raised (fun _ => rfl) nofun)
      | false => exact .inl rfl
    | patch => exact .inl rfl
    | minor | major => exact absurd h (by decide)
  | minor =>
    cases lower with
    | none => exact .inr (before_raised nofun nofun)
    | patch => cases isRelease <;> exact .inr (.inr ⟨rfl, .inl (Nat.lt_succ_self _)⟩)
    | minor => exact .inl rfl
    | major => exact absurd h (by decide)
  | major =>
    cases lower with
    | none | minor => exact .inr (.inl (Nat.lt_succ_self _))
    | patch => cases isRelease <;> exact .inr (.inl (Nat.lt_succ_self _))
    | major => exact .inl rfl

/-- The higher the level, the later are the next numbers. -/
theorem next_mono {lower higher : Bump} (h : lower ≤ higher) :
    n.next isRelease lower = n.next isRelease higher ∨
      (n.next isRelease lower).Before (n.next isRelease higher) := by
  by_cases hn : n.BelowFirst
  · by_cases hlower : lower = .major
    · subst hlower
      obtain rfl : higher = .major := Bump.le_antisymm (Bump.le_major higher) h
      exact .inl rfl
    · rw [next_of_belowFirst hn hlower]
      by_cases hhigher : higher = .major
      · subst hhigher
        exact .inr (.inl (Nat.succ_pos _))
      · rw [next_of_belowFirst hn hhigher]
        exact .inl rfl
  · rw [next_of_not_belowFirst hn, next_of_not_belowFirst hn]
    exact raised_mono h

end Numbers

/-- A number is raised to one more, unless it is the greatest there is. -/
theorem raise?_cases (n : UInt64) :
    (n.toNat + 1 = UInt64.size ∧ raise? n = none) ∨
      n.toNat + 1 ≠ UInt64.size ∧ ∃ m, raise? n = some m ∧ m.toNat = n.toNat + 1 := by
  have hn : n.toNat < UInt64.size := n.toNat_lt
  unfold raise?
  split
  · next hbound =>
    refine .inr ⟨Nat.ne_of_lt hbound, n + 1, rfl, ?_⟩
    rw [UInt64.toNat_add, UInt64.toNat_one]
    exact Nat.mod_eq_of_lt hbound
  · next hbound => exact .inl ⟨by omega, rfl⟩

namespace Version

variable {v w : Version}

/-- The numbers of a version. -/
def numbers (v : Version) : Numbers :=
  ⟨v.major.toNat, v.minor.toNat, v.patch.toNat⟩

/-- The numbers of versions are compared as numbers. -/
theorem numbersLT_iff : v.NumbersLT w ↔ v.numbers.Before w.numbers := by
  simp only [NumbersLT, UInt64.lt_iff_toNat_lt, ← UInt64.toNat_inj]
  rfl

/-- Plain versions differ in their numbers only. -/
theorem eq_of_numbers_eq (hv : v.isPlain = true) (hw : w.isPlain = true)
    (h : v.numbers = w.numbers) : v = w := by
  obtain ⟨hvpre, hvbuild⟩ := Bool.and_eq_true_iff.1 hv
  obtain ⟨hwpre, hwbuild⟩ := Bool.and_eq_true_iff.1 hw
  obtain ⟨hmajor, hminor, hpatch⟩ := Numbers.mk.inj h
  cases v
  cases w
  cases UInt64.toNat_inj.1 hmajor
  cases UInt64.toNat_inj.1 hminor
  cases UInt64.toNat_inj.1 hpatch
  cases Identifiers.eq_empty hvpre
  cases Identifiers.eq_empty hvbuild
  cases Identifiers.eq_empty hwpre
  cases Identifiers.eq_empty hwbuild
  rfl

/-- The numbers are below those of 0.1.0 if the first two are zero. -/
theorem belowFirst_numbers : v.numbers.BelowFirst ↔ v.major = 0 ∧ v.minor = 0 := by
  rw [← UInt64.toNat_inj, ← UInt64.toNat_inj]
  rfl

/-- The number that a release of the level raises is the greatest there is. A pre-release that is
released as it is raises none. -/
def IsSpent (v : Version) : Bump → Prop
  | .none => False
  | .patch => v.pre.isEmpty = true ∧ v.patch.toNat + 1 = UInt64.size
  | .minor => v.minor.toNat + 1 = UInt64.size
  | .major => v.major.toNat + 1 = UInt64.size

instance (v : Version) (level : Bump) : Decidable (v.IsSpent level) :=
  match level with
  | .none => inferInstanceAs (Decidable False)
  | .patch => inferInstanceAs (Decidable (_ ∧ _))
  | .minor => inferInstanceAs (Decidable (_ = _))
  | .major => inferInstanceAs (Decidable (_ = _))

/-- A version below 0.1.0 has a second number to raise. -/
theorem not_isSpent_minor (h : v.numbers.BelowFirst) : ¬ v.IsSpent .minor := by
  rw [IsSpent, (belowFirst_numbers.1 h).2]
  exact nofun

/-- A release fails if the number that it raises is the greatest there is. Otherwise it makes of the
numbers what it makes of them without a bound, and what is released is plain. -/
theorem bump_cases (v : Version) (level : Bump) :
    (v.IsSpent level ∧ v.bump level = .error (.overflow v.text)) ∨
      ¬ v.IsSpent level ∧ ∃ w, v.bump level = .ok w ∧
        w.numbers = v.numbers.raised v.pre.isEmpty level ∧
        if level = .none then w = v else w.isPlain = true := by
  cases level with
  | none => exact .inr ⟨id, v, rfl, rfl, rfl⟩
  | patch =>
    unfold bump IsSpent
    cases v.pre.isEmpty with
    | false => exact .inr ⟨fun h => (nomatch h.1), _, rfl, rfl, rfl⟩
    | true =>
      rcases raise?_cases v.patch with ⟨hspent, hnone⟩ | ⟨hleft, m, hsome, hm⟩
      · exact .inl ⟨⟨rfl, hspent⟩, by simp only [hnone, if_true]⟩
      · refine .inr ⟨fun h => hleft h.2, { major := v.major, minor := v.minor, patch := m },
          ?_, ?_, rfl⟩
        · simp only [hsome, if_true]
        · simp [numbers, Numbers.raised, hm]
  | minor =>
    unfold bump IsSpent
    rcases raise?_cases v.minor with ⟨hspent, hnone⟩ | ⟨hleft, m, hsome, hm⟩
    · exact .inl ⟨hspent, by simp only [hnone]⟩
    · refine .inr ⟨hleft, { major := v.major, minor := m, patch := 0 }, ?_, ?_, rfl⟩
      · simp only [hsome]
      · simp [numbers, Numbers.raised, hm]
  | major =>
    unfold bump IsSpent
    rcases raise?_cases v.major with ⟨hspent, hnone⟩ | ⟨hleft, m, hsome, hm⟩
    · exact .inl ⟨hspent, by simp only [hnone]⟩
    · refine .inr ⟨hleft, { major := m, minor := 0, patch := 0 }, ?_, ?_, rfl⟩
      · simp only [hsome]
      · simp [numbers, Numbers.raised, hm]

/-- A release makes of the numbers what it makes of them without a bound, and what is released is
plain. -/
theorem numbers_of_bump {level : Bump} (h : v.bump level = .ok w) :
    w.numbers = v.numbers.raised v.pre.isEmpty level ∧
      if level = .none then w = v else w.isPlain = true := by
  rcases v.bump_cases level with ⟨-, hbump⟩ | ⟨-, next, hbump, hnext⟩
  · exact nomatch h.symm.trans hbump
  · obtain rfl : w = next := Except.ok.inj (h.symm.trans hbump)
    exact hnext

end Version

namespace ReleasePolicy

/-- There is no next version if the number that a release of the level raises is the greatest there
is. Otherwise there is one. Its numbers are what they are without a bound, and it is plain or the
version itself. -/
theorem nextVersion_cases (v : Version) (level : Bump) :
    (v.IsSpent level ∧ nextVersion v level = .error (.overflow v.text)) ∨
      ¬ v.IsSpent level ∧ ∃ w, nextVersion v level = .ok w ∧
        w.numbers = v.numbers.next v.pre.isEmpty level ∧
        if level = .none ∧ ¬ v.numbers.BelowFirst then w = v else w.isPlain = true := by
  rcases v.bump_cases level with ⟨hspent, hbump⟩ | ⟨hleft, w, hbump, hw, hkind⟩
  · exact .inl ⟨hspent, bind_eq_error.2 (.inl hbump)⟩
  · refine .inr ⟨hleft, ?_⟩
    by_cases hbelow : w.numbers.BelowFirst
    · -- the release that follows is one of the version itself, whose second number is zero
      have hv : v.numbers.BelowFirst := Numbers.belowFirst_of_raised (hw ▸ hbelow)
      rcases v.bump_cases .minor with ⟨hspent, -⟩ | ⟨-, first, hfirst, hnumbers, hplain⟩
      · exact absurd hspent (Version.not_isSpent_minor hv)
      · refine ⟨first, bind_eq_ok.2 ⟨w, hbump, ?_⟩, ?_, ?_⟩
        · rw [if_pos (by simpa using Version.belowFirst_numbers.1 hbelow), hfirst]
        · rw [Numbers.next, ← hw, if_pos hbelow, hnumbers]
        · rw [if_neg fun h => h.2 hv]
          exact hplain
    · refine ⟨w, bind_eq_ok.2 ⟨w, hbump, ?_⟩, ?_, ?_⟩
      · rw [if_neg (by simpa using mt Version.belowFirst_numbers.2 hbelow)]
        rfl
      · rw [Numbers.next, ← hw, if_neg hbelow]
      · by_cases hlevel : level = .none
        · subst hlevel
          obtain rfl : w = v := hkind
          rw [if_pos ⟨rfl, hbelow⟩]
        · rw [if_neg fun h => hlevel h.1]
          exact (if_neg hlevel).mp hkind

/-- A next version has the numbers that it has without a bound, and it is plain or the version
itself. -/
theorem numbers_of_nextVersion {v w : Version} {level : Bump} (h : nextVersion v level = .ok w) :
    w.numbers = v.numbers.next v.pre.isEmpty level ∧
      if level = .none ∧ ¬ v.numbers.BelowFirst then w = v else w.isPlain = true := by
  rcases nextVersion_cases v level with ⟨-, hnext⟩ | ⟨-, next, hnext, hkind⟩
  · exact nomatch h.symm.trans hnext
  · obtain rfl : w = next := Except.ok.inj (h.symm.trans hnext)
    exact hkind

end ReleasePolicy

end ConventionalRelease
