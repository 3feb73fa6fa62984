import ConventionalRelease.Proofs.Release.Bump

/-!
# Courses of versions

A version is decided on again and again, each time from the version reached so far
(`ReleasePolicy.course`). One decision never goes back, and it makes a version greater exactly if
something is released (`ReleasePolicy.decide_spec`), so along a course the versions rise
(`ReleasePolicy.course_rises`).
-/

namespace ConventionalRelease.ReleasePolicy

variable {policy : ReleasePolicy} {v : Version}

/-- A decision on the version reached so far. -/
structure Step where
  /-- The version reached so far. -/
  current : Version
  /-- The commits since then. -/
  commits : List LogEntry
  /-- What follows from them. -/
  decision : Decision
  deriving DecidableEq

/-- The version that a decision reaches. -/
def Step.next (step : Step) : Version :=
  step.decision.version.getD step.current

/-- Decides on lists of commits one after the other, as long as there is a next version. -/
def course (policy : ReleasePolicy) (v : Version) :
    List (List LogEntry) → Except VersionError (List Step)
  | [] => return []
  | commits :: logs => do
    let decision ← policy.decide (some v) commits
    let step : Step := { current := v, commits, decision }
    return step :: (← policy.course step.next logs)

/-- The first version that may be released. -/
def firstVersion : Version := { major := 0, minor := 1, patch := 0 }

/-- A decision reaches a version that is at least 0.1.0. With a release this is a plain one that
comes after the version so far, and without a release it is the version so far, unless that is below
0.1.0. -/
theorem decide_spec {commits : List LogEntry} {decision : Decision}
    (h : policy.decide (some v) commits = .ok decision) :
    ∃ w, decision.version = some w ∧ v.AtMost w ∧
      (decision.updated = true → v.Precedes w ∧ w.isPlain = true) ∧
      (decision.updated = false → w = if v.major = 0 ∧ v.minor = 0 then firstVersion else v) ∧
      ¬ (w.major = 0 ∧ w.minor = 0) := by
  obtain ⟨w, hw, rfl⟩ := decide_some_eq_ok.1 h
  refine ⟨w, rfl, ?_⟩
  by_cases hlevel : policy.aggregate commits = .none
  · rw [hlevel] at hw ⊢
    have hkept : w = if v.major = 0 ∧ v.minor = 0 then firstVersion else v := by
      split
      · next hzero =>
        rw [nextVersion_none_of_zero hzero.1 hzero.2] at hw
        exact (Except.ok.inj hw).symm
      · next hstarted =>
        rw [nextVersion_none hstarted] at hw
        exact (Except.ok.inj hw).symm
    refine ⟨?_, nofun, fun _ => hkept, ?_⟩
    · rw [hkept]
      split
      · next hzero =>
        have hlt : v.NumbersLT firstVersion := .inr ⟨hzero.1, .inl (hzero.2 ▸ by decide)⟩
        exact hlt.precedes.atMost
      · exact .refl v
    · rw [hkept]
      split
      · exact nofun
      · next hstarted => exact hstarted
  · obtain ⟨hlt, hplain, hstarted⟩ := precedes_of_nextVersion hlevel hw
    refine ⟨hlt.atMost, fun _ => ⟨hlt, hplain⟩, fun hupdated => ?_, hstarted⟩
    exact absurd (of_decide_eq_false hupdated) (not_not_intro hlevel)

/-- Along a course the versions never decrease. A step with a release makes the version greater and
leaves neither pre-release nor build; a step without a release leaves the version as it is, unless
it is below 0.1.0, which becomes 0.1.0. So after the first step no version is below 0.1.0. -/
theorem course_rises {logs : List (List LogEntry)} {steps : List Step}
    (h : policy.course v logs = .ok steps) :
    (v :: steps.map Step.next).Pairwise Version.AtMost ∧ ∀ step ∈ steps,
      step.decision.version = some step.next ∧
      (step.decision.updated = true →
        step.current.Precedes step.next ∧ step.next.pre = ∅ ∧ step.next.build = ∅) ∧
      (step.decision.updated = false →
        step.next =
          if step.current.major = 0 ∧ step.current.minor = 0 then firstVersion
          else step.current) ∧
      ¬ (step.next.major = 0 ∧ step.next.minor = 0) := by
  induction logs generalizing v steps with
  | nil =>
    cases h
    exact ⟨List.pairwise_singleton _ _, nofun⟩
  | cons commits logs ih =>
    obtain ⟨decision, hdecision, h⟩ := bind_eq_ok.1 h
    obtain ⟨rest, hrest, h⟩ := bind_eq_ok.1 h
    cases h
    obtain ⟨w, hversion, hle, hreleased, hkept, hstarted⟩ := decide_spec hdecision
    have hnext : Step.next ⟨v, commits, decision⟩ = w := by
      rw [Step.next, hversion, Option.getD_some]
    rw [hnext] at hrest
    obtain ⟨hpairwise, hsteps⟩ := ih hrest
    rw [List.map_cons, hnext, List.forall_mem_cons, hnext]
    refine ⟨List.pairwise_cons.2 ⟨?_, hpairwise⟩, ⟨hversion, ?_, hkept, hstarted⟩, hsteps⟩
    · -- what comes later is at least the version that the first step reaches
      intro later hlater
      rcases List.mem_cons.1 hlater with rfl | hlater
      · exact hle
      · exact hle.trans (List.rel_of_pairwise_cons hpairwise hlater)
    · intro hupdated
      obtain ⟨hlt, hplain⟩ := hreleased hupdated
      obtain ⟨hpre, hbuild⟩ := Bool.and_eq_true_iff.1 hplain
      exact ⟨hlt, Identifiers.eq_empty hpre, Identifiers.eq_empty hbuild⟩

/-- A pre-release with a build. -/
def candidate : Version :=
  { major := 1, minor := 2, patch := 3, pre := ⟨[['r', 'c'], ['1']], by decide⟩
    build := ⟨[['7']], by decide⟩ }

/-- A commit of a type. -/
def ofType (type : String) : LogEntry :=
  { date := "", timestamp := 0, author := "", hash := "", message := { type } }

/-- A pre-release stays until it is released as it is, and only what calls for a release goes on
from there. -/
theorem course_rises_candidate :
    ∃ steps, course (.ofConfig {}) candidate [[], [ofType "fix"], [ofType "revert"],
      [ofType "feat"]] = .ok steps ∧
      steps.map Step.next = [candidate, { major := 1, minor := 2, patch := 3 },
        { major := 1, minor := 2, patch := 3 }, { major := 1, minor := 3, patch := 0 }] ∧
      (candidate :: steps.map Step.next).Pairwise Version.AtMost ∧
      ∀ step ∈ steps, step.decision.updated = true → step.current.Precedes step.next := by
  refine ⟨_, rfl, rfl, ?_⟩
  obtain ⟨hpairwise, hsteps⟩ :=
    @course_rises (.ofConfig {}) candidate [[], [ofType "fix"], [ofType "revert"],
      [ofType "feat"]] _ rfl
  exact ⟨hpairwise, fun step hstep hupdated => ((hsteps step hstep).2.1 hupdated).1⟩

end ConventionalRelease.ReleasePolicy
