import ConventionalRelease.Proofs.Attempt
import ConventionalRelease.Release.Plan

/-!
# What a plan rests on

The current version is what the name of the last tag is read as (`Project.currentVersion_eq_ok`),
and the next version follows from the commits that the log since that tag is read as
(`Project.nextVersion_eq_ok`).
-/

namespace ConventionalRelease.Project

variable {p : Project}

/-- The current version is that of the last tag. -/
theorem currentVersion_eq_ok {current : CurrentVersion} :
    p.currentVersion = .ok current ↔
      current.tag = p.lastTag? ∧ Version.parse current.tagName = .ok current.version := by
  constructor
  · intro h
    obtain ⟨version, hversion, hret⟩ := bind_eq_ok.1 h
    cases hret
    exact ⟨rfl, mapError_eq_ok.1 (Attempt.within_eq_ok.1 hversion)⟩
  · rintro ⟨htag, hversion⟩
    obtain ⟨tag, version⟩ := current
    cases htag
    exact bind_eq_ok.2 ⟨version, Attempt.within_eq_ok.2 (mapError_eq_ok.2 hversion), rfl⟩

/-- The next version follows from the commits since the last tag. -/
theorem nextVersion_eq_ok {writer : ReleaseWriter} {next : NextVersion} :
    p.nextVersion writer = .ok next ↔ p.currentVersion = .ok next.current ∧
      ∃ log, p.logSince next.current.tag none = .ok log ∧
        writer.convention.readLog log = .ok next.commits ∧
        (ReleasePolicy.ofConfig p.config).decide (some next.current.version) next.commits =
          .ok next.decision := by
  constructor
  · intro h
    obtain ⟨current, hcurrent, h⟩ := bind_eq_ok.1 h
    obtain ⟨log, hlog, h⟩ := bind_eq_ok.1 h
    obtain ⟨commits, hcommits, h⟩ := bind_eq_ok.1 h
    obtain ⟨decision, hdecision, hret⟩ := bind_eq_ok.1 h
    cases hret
    exact ⟨hcurrent, log, Attempt.within_eq_ok.1 hlog, mapError_eq_ok.1 hcommits,
      mapError_eq_ok.1 hdecision⟩
  · rintro ⟨hcurrent, log, hlog, hcommits, hdecision⟩
    obtain ⟨current, decision, commits⟩ := next
    refine bind_eq_ok.2 ⟨current, hcurrent, ?_⟩
    refine bind_eq_ok.2 ⟨log, Attempt.within_eq_ok.2 hlog, ?_⟩
    refine bind_eq_ok.2 ⟨commits, mapError_eq_ok.2 hcommits, ?_⟩
    exact bind_eq_ok.2 ⟨decision, mapError_eq_ok.2 hdecision, rfl⟩

/-- The log since a tag shows the commits since then. -/
theorem logSince_of_commitsIn {start : Option TagInfo} {stop : Option String} {lineage : Lineage}
    (h : p.repository.commitsIn (.of .tag (start.map (·.name)) stop) = .ok lineage) :
    p.logSince start stop = .ok (lineage.map Commit.raw) :=
  mapError_eq_ok.2 (bind_eq_ok.2 ⟨lineage, h, rfl⟩)

end ConventionalRelease.Project
