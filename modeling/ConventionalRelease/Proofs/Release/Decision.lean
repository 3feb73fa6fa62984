import ConventionalRelease.Proofs.Release.Course

/-!
# What a decision depends on

A decision fails exactly if the number to raise is the greatest there is, and otherwise the next
version has the numbers that it has without a bound (`ReleasePolicy.decide_eq_error_iff`). It
depends only on which commits there are: more commits never lead to an earlier version, and the same
commits in another order or listed again lead to the same one (`ReleasePolicy.decide_of_subset`).
-/

namespace ConventionalRelease.ReleasePolicy

variable {policy : ReleasePolicy} {few many : List LogEntry} {v w w' : Version}

/-- Without a current version only the level follows from the commits. -/
theorem decide_none (policy : ReleasePolicy) (commits : List LogEntry) :
    policy.decide none commits =
      .ok { version := none, level := policy.aggregate commits
            updated := policy.aggregate commits ≠ .none } :=
  rfl

/-- A decision fails exactly if the number that the highest level raises is the greatest there is,
and names the version whose number that is. Otherwise the next version has the numbers that it has
without a bound, and is plain unless it is the current one. Without a current version no decision
fails. -/
theorem decide_eq_error_iff (policy : ReleasePolicy) (commits : List LogEntry) :
    ∃ level, policy.IsHighest commits level ∧
      (∀ v e, policy.decide (some v) commits = .error e ↔ e = .overflow v.text ∧ v.IsSpent level) ∧
      (∀ v : Version, ¬ v.IsSpent level → ∃ w,
        policy.decide (some v) commits =
          .ok { version := some w, level, updated := level ≠ .none } ∧
          w.numbers = v.numbers.next v.pre.isEmpty level ∧
          if level = .none ∧ ¬ v.numbers.BelowFirst then w = v else w.isPlain = true) ∧
      policy.decide none commits = .ok { version := none, level, updated := level ≠ .none } := by
  refine ⟨policy.aggregate commits, isHighest_aggregate policy commits, fun v e => ?_,
    fun v hleft => ?_, decide_none policy commits⟩
  · rw [decide_some]
    rcases nextVersion_cases v (policy.aggregate commits) with
      ⟨hspent, hnext⟩ | ⟨hleft, w, hnext, -⟩
    · rw [hnext]
      exact ⟨fun h => ⟨(Except.error.inj h).symm, hspent⟩, fun h => congrArg Except.error h.1.symm⟩
    · rw [hnext]
      exact ⟨nofun, fun h => absurd h.2 hleft⟩
  · rcases nextVersion_cases v (policy.aggregate commits) with ⟨hspent, -⟩ | ⟨-, w, hnext, hw⟩
    · exact absurd hspent hleft
    · exact ⟨w, decide_some_eq_ok.2 ⟨w, hnext, rfl⟩, hw⟩

/-- The third number is raised first, and may be the greatest there is, even if what follows is
0.1.0. -/
example : Version.IsSpent { major := 0, minor := 0, patch := 18446744073709551615 } .patch ∧
    nextVersion { major := 0, minor := 0, patch := 18446744073709551615 } .patch =
      .error (.overflow "0.0.18446744073709551615") ∧
    nextVersion { major := 0, minor := 0, patch := 18446744073709551615 } .none =
      .ok firstVersion := by
  decide +kernel

/-- A higher level leads to the same version or to one that comes after it. -/
theorem eq_or_precedes_of_nextVersion {lower higher : Bump} (hle : lower ≤ higher)
    (h : nextVersion v lower = .ok w) (h' : nextVersion v higher = .ok w') :
    w = w' ∨ w.Precedes w' := by
  obtain ⟨hw, hkind⟩ := numbers_of_nextVersion h
  obtain ⟨hw', hkind'⟩ := numbers_of_nextVersion h'
  by_cases hnone : higher = .none
  · obtain rfl : lower = higher := Bump.le_antisymm hle (hnone ▸ Bump.none_le lower)
    exact .inl (Except.ok.inj (h.symm.trans h'))
  · rw [if_neg fun hkept => hnone hkept.1] at hkind'
    by_cases hkept : lower = .none ∧ ¬ v.numbers.BelowFirst
    · -- the version is left as it is, and any release comes after it
      rw [if_pos hkept] at hkind
      subst hkind
      exact .inr (precedes_of_nextVersion hnone h').1
    · rw [if_neg hkept] at hkind
      have hmono : w.numbers = w'.numbers ∨ w.numbers.Before w'.numbers := by
        rw [hw, hw']
        exact Numbers.next_mono hle
      rcases hmono with heq | hbefore
      · exact .inl (Version.eq_of_numbers_eq hkind hkind' heq)
      · exact .inr (Version.numbersLT_iff.2 hbefore).precedes

/-- More commits never call for less, and never lead to an earlier version. Lists of the same
commits lead to the same, in whatever order and however often the commits are listed. -/
theorem decide_of_subset {current : Option Version} (h : few ⊆ many) :
    policy.aggregate few ≤ policy.aggregate many ∧
      (∀ decision decision', policy.decide current few = .ok decision →
        policy.decide current many = .ok decision' →
        decision.level ≤ decision'.level ∧
          Option.Rel (fun w w' => w = w' ∨ w.Precedes w') decision.version decision'.version) ∧
      (many ⊆ few → policy.decide current few = policy.decide current many) := by
  have hle : policy.aggregate few ≤ policy.aggregate many := aggregate_le_of_subset h
  refine ⟨hle, fun decision decision' hdecision hdecision' => ?_, fun h' => ?_⟩
  · cases current with
    | none =>
      rw [decide_none] at hdecision hdecision'
      cases hdecision
      cases hdecision'
      exact ⟨hle, .none⟩
    | some v =>
      obtain ⟨w, hw, rfl⟩ := decide_some_eq_ok.1 hdecision
      obtain ⟨w', hw', rfl⟩ := decide_some_eq_ok.1 hdecision'
      exact ⟨hle, .some (eq_or_precedes_of_nextVersion hle hw hw')⟩
  · unfold ReleasePolicy.decide
    rw [aggregate_eq_of_subset h h']

/-- A fix releases a pre-release as it is, a feature goes on from there. -/
theorem decide_of_subset_candidate :
    [ofType "fix"] ⊆ [ofType "feat", ofType "fix"] ∧ ∃ decision decision',
      (ofConfig {}).decide (some candidate) [ofType "fix"] = .ok decision ∧
      (ofConfig {}).decide (some candidate) [ofType "feat", ofType "fix"] = .ok decision' ∧
      decision.version = some { major := 1, minor := 2, patch := 3 } ∧
      decision'.version = some { major := 1, minor := 3, patch := 0 } ∧
      Option.Rel (fun w w' => w = w' ∨ w.Precedes w') decision.version decision'.version := by
  have hsubset : [ofType "fix"] ⊆ [ofType "feat", ofType "fix"] := List.subset_cons_self _ _
  obtain ⟨-, hdecisions, -⟩ := @decide_of_subset (ofConfig {}) _ _ (some candidate) hsubset
  exact ⟨hsubset, _, _, rfl, rfl, rfl, rfl, (hdecisions _ _ rfl rfl).2⟩

end ConventionalRelease.ReleasePolicy
