import ConventionalRelease.Proofs.History.Revision

/-!
# Ranges between tags

Where a commit is checked out, a range of tags holds what its end is based on and its start is not
(`commitsIn_tags`); where none is, it holds nothing (`commitsIn_of_not_hasCommits`).
-/

namespace ConventionalRelease.Repository

variable {r : Repository}

/-- The commit that a revision leads to, with those it is based on; nothing if it leads to none. -/
def tip (r : Repository) (text : String) : Lineage :=
  ((r.resolve text).toOption.map Descent.lineage).getD []

/-- A revision that leads to a commit has that as its tip. -/
theorem tip_eq {text : String} {descent : Descent} (h : r.resolve text = .ok descent) :
    r.tip text = descent.lineage := by
  rw [tip, h]
  rfl

theorem tip_eq_of_map {text : String} {lineage : Lineage}
    (h : (r.resolve text).map Descent.lineage = .ok lineage) : r.tip text = lineage := by
  rw [tip]
  cases hresolve : r.resolve text with
  | error e =>
    rw [hresolve] at h
    cases h
  | ok descent =>
    rw [hresolve] at h
    exact Except.ok.inj h

/-- What is checked out is a commit. -/
theorem hasCommits_of_head? {descent : Descent} (h : r.head? = some descent) :
    r.hasCommits = true := by
  rw [hasCommits, h]
  rfl

theorem checkedOut_of_head? {descent : Descent} (h : r.head? = some descent) :
    r.checkedOut = descent.lineage := by
  rw [checkedOut, h]
  rfl

/-- Bounds that are not empty are the bounds of the range. -/
theorem range_of_ne_empty {kind : RangeKind} {start stop : Option String}
    (hstart : ∀ s ∈ start, s ≠ "") (hstop : ∀ s ∈ stop, s ≠ "") :
    LogRange.of kind start stop = { kind, start, stop } := by
  have hkeep {bound : Option String} (h : ∀ s ∈ bound, s ≠ "") : bound.filter (· ≠ "") = bound := by
    cases bound with
    | none => rfl
    | some s => simp [h s rfl]
  rw [LogRange.of, hkeep hstart, hkeep hstop]

/-- Where a commit is checked out, a range of tags is a range of revisions. -/
theorem commitsIn_tags_eq (hhead : r.hasCommits = true) {start stop : Option String}
    (hstart : ∀ s ∈ start, s ≠ "") (hstop : ∀ s ∈ stop, s ≠ "") :
    r.commitsIn (.of .tag start stop) = r.logOfRevisions start stop := by
  rw [range_of_ne_empty hstart hstop, commitsIn, hhead]
  rfl

/-- Where a commit is checked out, a range of tags holds what its end is based on and its start is
not. -/
theorem commitsIn_tags (hhead : r.hasCommits = true) {start stop : Option String} {last : Descent}
    (hstart : ∀ s ∈ start, s ≠ "" ∧ ∃ first, r.resolve s = .ok first)
    (hstop : ∀ s ∈ stop, s ≠ "") (hlast : r.resolve (stop.getD "HEAD") = .ok last) :
    r.commitsIn (.of .tag start stop) =
      .ok (between last.lineage ((start.map r.tip).getD [])) := by
  rw [commitsIn_tags_eq hhead (fun s hs => (hstart s hs).1) hstop, logOfRevisions, hlast]
  cases start with
  | none => rfl
  | some s =>
    obtain ⟨first, hfirst⟩ := (hstart s rfl).2
    have hhidden : ((some s).mapM r.resolve : Except HistoryError (Option Descent)) =
        .ok (some first) := by
      show (some <$> r.resolve s : Except HistoryError (Option Descent)) = _
      rw [hfirst]
      rfl
    rw [hhidden, Option.map_some, tip_eq hfirst]
    rfl

/-- The log of revisions fails as the first of its bounds that leads to no commit does, its end
before its start. -/
theorem logOfRevisions_eq_error {start stop : Option String} {e : HistoryError} :
    r.logOfRevisions start stop = .error e ↔ r.resolve (stop.getD "HEAD") = .error e ∨
      (∃ last, r.resolve (stop.getD "HEAD") = .ok last) ∧
        ∃ s ∈ start, r.resolve s = .error e := by
  rw [logOfRevisions, bind_eq_error]
  refine or_congr_right ⟨?_, ?_⟩
  · rintro ⟨last, hlast, hrest⟩
    rcases bind_eq_error.1 hrest with hstart | ⟨_, -, hret⟩
    · exact ⟨⟨last, hlast⟩, option_mapM_eq_error.1 hstart⟩
    · cases hret
  · rintro ⟨⟨last, hlast⟩, hstart⟩
    exact ⟨last, hlast, bind_eq_error.2 (.inl (option_mapM_eq_error.2 hstart))⟩

/-- Where no commit is checked out, no range holds any commit. -/
theorem commitsIn_of_not_hasCommits (h : r.hasCommits = false) (range : LogRange) :
    r.commitsIn range = .ok [] := by
  rw [commitsIn, h]
  rfl

/-- On a branch without commits, no range holds any. -/
theorem commitsIn_of_head?_eq_none (h : r.head? = none) (range : LogRange) :
    r.commitsIn range = .ok [] := by
  refine commitsIn_of_not_hasCommits ?_ range
  rw [hasCommits, h]
  rfl

/-- The log of a range shows its commits. -/
theorem log_of_commitsIn {range : LogRange} {lineage : Lineage}
    (h : r.commitsIn range = .ok lineage) :
    r.log range = .ok (lineage.map Commit.raw) := by
  rw [log, h]
  rfl

end ConventionalRelease.Repository
