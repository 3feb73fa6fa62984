import ConventionalRelease.Release.Bump

/-!
# Levels of releases

Levels are ordered, and what a list of commits calls for is the highest level that one of them calls
for (`ReleasePolicy.isHighest_aggregate`). So more commits never call for less
(`ReleasePolicy.aggregate_le_of_subset`), and it matters neither in which order commits are listed
nor how often (`ReleasePolicy.aggregate_eq_of_subset`).
-/

namespace ConventionalRelease

namespace Bump

variable {a b c : Bump}

theorem rank_injective : Function.Injective rank := by
  intro a b h
  cases a <;> cases b <;> first | rfl | cases h

theorem le_refl (a : Bump) : a ≤ a :=
  Nat.le_refl a.rank

theorem le_trans (hab : a ≤ b) (hbc : b ≤ c) : a ≤ c :=
  Nat.le_trans (m := b.rank) hab hbc

theorem le_antisymm (hab : a ≤ b) (hba : b ≤ a) : a = b :=
  rank_injective (Nat.le_antisymm hab hba)

theorem none_le (a : Bump) : .none ≤ a :=
  Nat.zero_le a.rank

theorem le_major (a : Bump) : a ≤ .major := by
  cases a <;> decide

/-- The higher of two levels is at most a level if both are. -/
theorem max_le_iff : a.max b ≤ c ↔ a ≤ c ∧ b ≤ c := by
  unfold max
  split
  · next hab => exact ⟨fun h => ⟨le_trans hab h, h⟩, fun h => h.2⟩
  · next hab =>
    have hba : b ≤ a := Nat.le_of_not_le hab
    exact ⟨fun h => ⟨h, le_trans hba h⟩, fun h => h.1⟩

/-- The highest of some levels is at most a level if all of them are. -/
theorem foldl_max_le_iff {levels : List Bump} :
    levels.foldl max a ≤ c ↔ a ≤ c ∧ ∀ level ∈ levels, level ≤ c := by
  induction levels generalizing a with
  | nil => simp
  | cons level levels ih => rw [List.foldl_cons, ih, max_le_iff, List.forall_mem_cons, and_assoc]

/-- The highest of some levels is one of them. -/
theorem foldl_max_mem (levels : List Bump) (a : Bump) : levels.foldl max a ∈ a :: levels := by
  induction levels generalizing a with
  | nil => exact List.mem_singleton_self a
  | cons level levels ih =>
    rcases List.mem_cons.1 (ih (a.max level)) with h | h
    · rw [List.foldl_cons, h, max]
      split
      · exact List.mem_cons_of_mem _ List.mem_cons_self
      · exact List.mem_cons_self
    · exact List.mem_cons_of_mem _ (List.mem_cons_of_mem _ h)

end Bump

namespace ReleasePolicy

variable {policy : ReleasePolicy} {commits few many : List LogEntry} {level : Bump}

/-- No commit calls for a higher level, and some commit calls for this one unless it is no
release. -/
structure IsHighest (policy : ReleasePolicy) (commits : List LogEntry) (level : Bump) : Prop where
  le : ∀ entry ∈ commits, policy.classify entry.message ≤ level
  called : level ≠ .none → ∃ entry ∈ commits, policy.classify entry.message = level

/-- What commits call for is at most a level if none of them calls for a higher one. -/
theorem aggregate_le_iff :
    policy.aggregate commits ≤ level ↔
      ∀ entry ∈ commits, policy.classify entry.message ≤ level := by
  rw [aggregate, Bump.foldl_max_le_iff, List.forall_mem_map]
  exact and_iff_right (Bump.none_le level)

/-- What commits call for is the highest level that one of them calls for. -/
theorem isHighest_aggregate (policy : ReleasePolicy) (commits : List LogEntry) :
    policy.IsHighest commits (policy.aggregate commits) where
  le := aggregate_le_iff.1 (Bump.le_refl _)
  called hlevel := by
    rcases List.mem_cons.1
      (Bump.foldl_max_mem (commits.map fun c => policy.classify c.message) .none) with h | h
    · exact absurd h hlevel
    · obtain ⟨entry, hentry, h⟩ := List.mem_map.1 h
      exact ⟨entry, hentry, h⟩

/-- More commits never call for less. -/
theorem aggregate_le_of_subset (h : few ⊆ many) : policy.aggregate few ≤ policy.aggregate many :=
  aggregate_le_iff.2 fun entry hentry => (isHighest_aggregate policy many).le entry (h hentry)

/-- Lists of the same commits call for the same. -/
theorem aggregate_eq_of_subset (h : few ⊆ many) (h' : many ⊆ few) :
    policy.aggregate few = policy.aggregate many :=
  Bump.le_antisymm (aggregate_le_of_subset h) (aggregate_le_of_subset h')

end ReleasePolicy

end ConventionalRelease
