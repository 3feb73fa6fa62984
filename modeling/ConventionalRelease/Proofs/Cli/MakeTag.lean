import ConventionalRelease.Cli.Run
import ConventionalRelease.Proofs.Attempt

/-!
# Tagging the next version

The command looks at the next version first. Without anything to release it changes nothing
(`makeTag_of_not_updated`). Otherwise it makes the tag of the next version, or fails since that
cannot be made (`makeTag_spec`, `makeTag_error`).
-/

namespace ConventionalRelease.Cli

variable {settings : Settings} {p : Project} {now : Instant} {reply : Reply} {f : Failure}

/-- A notice changes nothing else. -/
theorem Reply.changes_noting {condition : Bool} {kind : NoticeKind} {text : String} :
    (reply.noting condition kind text).changes = reply.changes := by
  unfold Reply.noting
  split <;> rfl

/-- Without anything to release nothing is tagged. -/
theorem makeTag_of_not_updated {dryRun : Bool} {writer : ReleaseWriter} {next : NextVersion}
    (hwriter : p.writer = .ok writer) (hnext : p.nextVersion writer = .ok next)
    (h : next.decision.updated = false) :
    ∃ reply, makeTag settings p dryRun now = .ok reply ∧ reply.changes = [] := by
  let reply := ({} : Reply).noting (!settings.quiet) .info
    ("nothing to do: current version " ++ next.current.version.text ++ " unchanged")
  refine ⟨reply, bind_eq_ok.2 ⟨writer, hwriter, bind_eq_ok.2 ⟨next, hnext, ?_⟩⟩,
    Reply.changes_noting⟩
  rw [h]
  rfl

/-- A run that succeeds changes nothing, or tags the next version. -/
theorem makeTag_spec (h : makeTag settings p false now = .ok reply) :
    ∃ writer next, p.writer = .ok writer ∧ p.nextVersion writer = .ok next ∧
      ((next.decision.updated = false ∧ reply.changes = []) ∨ (next.decision.updated = true ∧
        (∃ info, p.repository.newTag (p.config.tag.name next.version) now = .ok info) ∧
        reply.changes = [.record (.tag (p.config.tag.name next.version) now.seconds "HEAD")])) := by
  obtain ⟨writer, hwriter, h⟩ := bind_eq_ok.1 h
  obtain ⟨next, hnext, h⟩ := bind_eq_ok.1 h
  refine ⟨writer, next, hwriter, hnext, ?_⟩
  cases hupdated : next.decision.updated with
  | false =>
    rw [hupdated] at h
    cases h
    exact .inl ⟨rfl, Reply.changes_noting⟩
  | true =>
    rw [hupdated] at h
    refine .inr ⟨rfl, ?_⟩
    cases hnew : p.repository.newTag (p.config.tag.name next.version) now with
    | error e =>
      simp only [hnew] at h
      cases h
    | ok info =>
      simp only [hnew] at h
      refine ⟨⟨info, rfl⟩, ?_⟩
      cases hformat : settings.format with
      | json =>
        rw [hformat] at h
        cases h
        rfl
      | text =>
        rw [hformat] at h
        cases h
        exact Reply.changes_noting

/-- A run fails since the next version cannot be told, or since its tag cannot be made. -/
theorem makeTag_error (h : makeTag settings p false now = .error f) :
    p.writer = .error f ∨ ∃ writer, p.writer = .ok writer ∧ (p.nextVersion writer = .error f ∨
      ∃ next e, p.nextVersion writer = .ok next ∧ next.decision.updated = true ∧
        p.repository.newTag (p.config.tag.name next.version) now = .error e ∧
          f.cause = .history e) := by
  rcases bind_eq_error.1 h with h | ⟨writer, hwriter, h⟩
  · exact .inl h
  refine .inr ⟨writer, hwriter, ?_⟩
  rcases bind_eq_error.1 h with h | ⟨next, hnext, h⟩
  · exact .inl h
  refine .inr ⟨next, ?_⟩
  cases hupdated : next.decision.updated with
  | false =>
    rw [hupdated] at h
    cases h
  | true =>
    rw [hupdated] at h
    cases hnew : p.repository.newTag (p.config.tag.name next.version) now with
    | error e =>
      simp only [hnew] at h
      cases h
      exact ⟨e, hnext, rfl, rfl, rfl⟩
    | ok info =>
      simp only [hnew] at h
      cases hformat : settings.format with
      | json =>
        rw [hformat] at h
        cases h
      | text =>
        rw [hformat] at h
        cases h

end ConventionalRelease.Cli
