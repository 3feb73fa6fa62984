import ConventionalRelease.Proofs.Release.Numbers
import ConventionalRelease.Proofs.Version.Precedence

/-!
# Raising versions

A release makes a version greater and leaves the versions below 0.1.0 behind
(`ReleasePolicy.precedes_of_nextVersion`), and the numbers of a plain version rise with it
(`ReleasePolicy.numbersLT_of_nextVersion`). Without a release a version that is at least 0.1.0 stays
(`ReleasePolicy.nextVersion_none`), and one below becomes 0.1.0
(`ReleasePolicy.nextVersion_none_of_zero`). There is a release only if some commit calls for one
(`ReleasePolicy.exists_of_aggregate_ne_none`).
-/

namespace ConventionalRelease

namespace Version

variable {v w : Version} {level : Bump}

/-- A release makes the numbers greater unless it is that of a pre-release as it is, and what is
released is plain. -/
theorem numbersLT_of_bump (hv : level = .patch → v.pre.isEmpty = true) (hlevel : level ≠ .none)
    (h : v.bump level = .ok w) : v.NumbersLT w ∧ w.isPlain = true := by
  obtain ⟨hnumbers, hkind⟩ := numbers_of_bump h
  rw [numbersLT_iff, hnumbers]
  exact ⟨Numbers.before_raised hv hlevel, (if_neg hlevel).mp hkind⟩

/-- A release makes a version greater, and what is released is plain. -/
theorem precedes_of_bump (hlevel : level ≠ .none) (h : v.bump level = .ok w) :
    v.Precedes w ∧ w.isPlain = true := by
  by_cases hpre : level = .patch ∧ v.pre.isEmpty = false
  · obtain ⟨rfl, hpre⟩ := hpre
    simp only [bump, hpre] at h
    cases h
    exact ⟨precedes_released hpre, rfl⟩
  · have hv : level = .patch → v.pre.isEmpty = true := by
      intro hpatch
      exact eq_true_of_ne_false fun hfalse => hpre ⟨hpatch, hfalse⟩
    obtain ⟨hlt, hplain⟩ := numbersLT_of_bump hv hlevel h
    exact ⟨hlt.precedes, hplain⟩

/-- A release of the second level has a second number. -/
theorem minor_ne_zero_of_bump (h : v.bump .minor = .ok w) : w.minor ≠ 0 := by
  have hminor : w.minor.toNat = v.minor.toNat + 1 := congrArg Numbers.minor (numbers_of_bump h).1
  intro hzero
  rw [hzero] at hminor
  exact absurd hminor.symm (Nat.succ_ne_zero _)

end Version

namespace ReleasePolicy

variable {policy : ReleasePolicy} {v w : Version} {level : Bump} {commits : List LogEntry}

/-- A release that is called for is a release of some level, and at least 0.1.0. -/
theorem exists_bump_of_nextVersion (hlevel : level ≠ .none) (h : nextVersion v level = .ok w) :
    ∃ raised, raised ≠ .none ∧ v.bump raised = .ok w ∧ ¬ (w.major = 0 ∧ w.minor = 0) := by
  obtain ⟨next, hnext, h⟩ := bind_eq_ok.1 h
  split at h
  · exact ⟨.minor, nofun, h, fun hzero => Version.minor_ne_zero_of_bump h hzero.2⟩
  · next hzero =>
    cases h
    exact ⟨level, hlevel, hnext, fun hw => hzero (by simp [hw.1, hw.2])⟩

/-- A release makes a plain version greater. What is released is plain, and at least 0.1.0. -/
theorem numbersLT_of_nextVersion (hv : v.isPlain = true) (hlevel : level ≠ .none)
    (h : nextVersion v level = .ok w) :
    v.NumbersLT w ∧ w.isPlain = true ∧ ¬ (w.major = 0 ∧ w.minor = 0) := by
  obtain ⟨raised, hraised, hbump, hstarted⟩ := exists_bump_of_nextVersion hlevel h
  obtain ⟨hlt, hplain⟩ :=
    Version.numbersLT_of_bump (fun _ => (Bool.and_eq_true_iff.1 hv).1) hraised hbump
  exact ⟨hlt, hplain, hstarted⟩

/-- A release makes a version greater. What is released is plain, and at least 0.1.0. -/
theorem precedes_of_nextVersion (hlevel : level ≠ .none) (h : nextVersion v level = .ok w) :
    v.Precedes w ∧ w.isPlain = true ∧ ¬ (w.major = 0 ∧ w.minor = 0) := by
  obtain ⟨raised, hraised, hbump, hstarted⟩ := exists_bump_of_nextVersion hlevel h
  obtain ⟨hlt, hplain⟩ := Version.precedes_of_bump hraised hbump
  exact ⟨hlt, hplain, hstarted⟩

/-- Without a release a version that is at least 0.1.0 stays. -/
theorem nextVersion_none (h : ¬ (v.major = 0 ∧ v.minor = 0)) : nextVersion v .none = .ok v := by
  refine bind_eq_ok.2 ⟨v, rfl, if_neg fun hzero => h ?_⟩
  simpa using hzero

/-- Without a release a version below 0.1.0 becomes 0.1.0. -/
theorem nextVersion_none_of_zero (hmajor : v.major = 0) (hminor : v.minor = 0) :
    nextVersion v .none = .ok { major := 0, minor := 1, patch := 0 } := by
  obtain ⟨major, minor, patch, pre, build⟩ := v
  cases hmajor
  cases hminor
  rfl

/-- A next version fails only because a number is the greatest there is. -/
theorem overflow_of_nextVersion {e : VersionError} (h : nextVersion v level = .error e) :
    e = .overflow v.text := by
  rcases nextVersion_cases v level with ⟨-, hnext⟩ | ⟨-, w, hnext, -⟩
  · exact Except.error.inj (h.symm.trans hnext)
  · exact nomatch h.symm.trans hnext

/-- There is a release only if some commit calls for one. -/
theorem exists_of_aggregate_ne_none (h : policy.aggregate commits ≠ .none) :
    ∃ entry ∈ commits, policy.classify entry.message ≠ .none := by
  obtain ⟨entry, hentry, hcalled⟩ := (isHighest_aggregate policy commits).called h
  exact ⟨entry, hentry, hcalled ▸ h⟩

/-- What follows from the commits since a current version. -/
theorem decide_some : policy.decide (some v) commits =
    (nextVersion v (policy.aggregate commits)).map fun next =>
      { version := some next
        level := policy.aggregate commits
        updated := policy.aggregate commits ≠ .none } := by
  have hmap : (some v).mapM (nextVersion · (policy.aggregate commits)) =
      some <$> nextVersion v (policy.aggregate commits) := rfl
  unfold ReleasePolicy.decide
  dsimp only
  rw [hmap]
  cases nextVersion v (policy.aggregate commits) <;> rfl

/-- Something follows from the commits when there is a next version. -/
theorem decide_some_eq_ok {decision : Decision} :
    policy.decide (some v) commits = .ok decision ↔
      ∃ next, nextVersion v (policy.aggregate commits) = .ok next ∧ decision =
        { version := some next
          level := policy.aggregate commits
          updated := policy.aggregate commits ≠ .none } := by
  rw [decide_some]
  cases nextVersion v (policy.aggregate commits) with
  | error e =>
    constructor
    · intro h
      cases h
    · rintro ⟨next, h, -⟩
      cases h
  | ok next =>
    constructor
    · intro h
      exact ⟨next, rfl, (Except.ok.inj h).symm⟩
    · rintro ⟨next', h, rfl⟩
      cases h
      rfl

/-- There is something to release when the commits call for a release. -/
theorem aggregate_ne_none_of_decide {decision : Decision}
    (h : policy.decide (some v) commits = .ok decision) (hupdated : decision.updated = true) :
    policy.aggregate commits ≠ .none := by
  obtain ⟨next, -, rfl⟩ := decide_some_eq_ok.1 h
  exact of_decide_eq_true hupdated

/-- Nothing follows from the commits only because a number is the greatest there is. -/
theorem overflow_of_decide {e : VersionError} (h : policy.decide (some v) commits = .error e) :
    e = .overflow v.text := by
  rw [decide_some] at h
  cases hnext : nextVersion v (policy.aggregate commits) with
  | error e' =>
    rw [hnext] at h
    exact Except.error.inj h ▸ overflow_of_nextVersion hnext
  | ok next =>
    rw [hnext] at h
    cases h

end ReleasePolicy

end ConventionalRelease
