import ConventionalRelease.History.Tags

/-!
# The order of tags

The order by time and name is total, so the tags that a filter admits are listed in order
(`pairwise_tagsIn`), and each of them once (`mem_tagsIn`). A tag that is later than all others is
the last one (`lastTag?_of_latest`).
-/

namespace ConventionalRelease

namespace TagInfo

/-- Of two times one is not after the other. -/
theorem dateLE_total (a b : Option Instant) : dateLE a b || dateLE b a := by
  cases a with
  | none => rfl
  | some a =>
    cases b with
    | none => rfl
    | some b => simpa [dateLE] using Int.le_total a.seconds b.seconds

/-- Times are in line. -/
theorem dateLE_trans {a b c : Option Instant} (hab : dateLE a b = true) (hbc : dateLE b c = true) :
    dateLE a c = true := by
  cases a with
  | none => rfl
  | some a =>
    cases b with
    | none => cases hab
    | some b =>
      cases c with
      | none => cases hbc
      | some c =>
        simp only [dateLE, decide_eq_true_eq] at hab hbc ⊢
        exact Int.le_trans hab hbc

/-- Times that are not after each other are the same. -/
theorem dateLE_antisymm {a b : Option Instant} (hab : dateLE a b = true) (hba : dateLE b a = true) :
    a = b := by
  cases a with
  | none =>
    cases b with
    | none => rfl
    | some b => cases hba
  | some a =>
    cases b with
    | none => cases hab
    | some b =>
      simp only [dateLE, decide_eq_true_eq] at hab hba
      have hsame : a.seconds = b.seconds := Int.le_antisymm hab hba
      obtain ⟨s⟩ := a
      exact congrArg (some ∘ Instant.mk) hsame

/-- A tag stands before another if it was made earlier, or at the same time under a name that is not
after. -/
theorem le_iff {a b : TagInfo} :
    a.le b = true ↔ (a.date = b.date ∧ a.name ≤ b.name) ∨
      (a.date ≠ b.date ∧ dateLE a.date b.date = true) := by
  unfold le
  by_cases h : a.date = b.date
  · simp [h]
  · simp [h]

/-- Of two tags one stands before the other. -/
theorem le_total (a b : TagInfo) : a.le b || b.le a := by
  rw [Bool.or_eq_true, le_iff, le_iff]
  by_cases h : a.date = b.date
  · rcases String.le_total a.name b.name with hn | hn
    · exact .inl (.inl ⟨h, hn⟩)
    · exact .inr (.inl ⟨h.symm, hn⟩)
  · rcases Bool.or_eq_true_iff.1 (dateLE_total a.date b.date) with hd | hd
    · exact .inl (.inr ⟨h, hd⟩)
    · exact .inr (.inr ⟨Ne.symm h, hd⟩)

/-- A tag that is later than another does not stand before it. -/
theorem le_eq_false {a b : TagInfo} (h : dateLE a.date b.date = false) : a.le b = false := by
  rw [Bool.eq_false_iff, Ne, le_iff]
  rintro (⟨hdate, -⟩ | ⟨-, hdate⟩)
  · have hrefl := dateLE_total b.date b.date
    rw [Bool.or_self] at hrefl
    rw [hdate, hrefl] at h
    cases h
  · rw [h] at hdate
    cases hdate

/-- Tags are in line. -/
theorem le_trans {a b c : TagInfo} (hab : a.le b = true) (hbc : b.le c = true) : a.le c = true := by
  rw [le_iff] at hab hbc ⊢
  rcases hab with ⟨hab, hn⟩ | ⟨hab, hd⟩
  · rcases hbc with ⟨hbc, hn'⟩ | ⟨hbc, hd'⟩
    · exact .inl ⟨hab.trans hbc, String.le_trans hn hn'⟩
    · rw [hab]
      exact .inr ⟨hbc, hd'⟩
  · rcases hbc with ⟨hbc, hn'⟩ | ⟨hbc, hd'⟩
    · rw [← hbc]
      exact .inr ⟨hab, hd⟩
    · refine .inr ⟨fun hac => hab ?_, dateLE_trans hd hd'⟩
      exact dateLE_antisymm hd (hac ▸ hd')

end TagInfo

namespace Repository

variable {r : Repository} {filter : String}

/-- A tag with its time. -/
def info (tag : String × Tagged) : TagInfo :=
  ⟨tag.1, tag.2.time?.bind (Instant.ofParts? · 0)⟩

/-- The tags are listed in order. -/
theorem pairwise_tagsIn (r : Repository) (filter : String) :
    (r.tagsIn filter).Pairwise fun a b => a.le b = true :=
  @List.pairwise_mergeSort _ TagInfo.le (fun _ _ _ => TagInfo.le_trans) TagInfo.le_total _

/-- The tags that the filter admits are listed. -/
theorem mem_tagsIn {tag : TagInfo} :
    tag ∈ r.tagsIn filter ↔ ∃ e ∈ r.tags, filterAdmits filter e.1 = true ∧ info e = tag := by
  rw [tagsIn, List.mem_mergeSort, List.mem_map]
  constructor
  · rintro ⟨e, he, rfl⟩
    exact ⟨e, (List.mem_filter.1 he).1, (List.mem_filter.1 he).2, rfl⟩
  · rintro ⟨e, he, hadmit, rfl⟩
    exact ⟨e, List.mem_filter.2 ⟨he, hadmit⟩, rfl⟩

/-- The last tag is one of them. -/
theorem mem_of_lastTag? {tag : TagInfo} (h : r.lastTag? filter = some tag) :
    tag ∈ r.tagsIn filter :=
  List.mem_of_getLast? h

/-- No tag comes after the last one. -/
theorem le_of_lastTag? {last tag : TagInfo} (h : r.lastTag? filter = some last)
    (hmem : tag ∈ r.tagsIn filter) :
    tag.le last = true := by
  obtain ⟨front, hfront⟩ := List.getLast?_eq_some_iff.1 h
  have hordered := pairwise_tagsIn r filter
  rw [hfront] at hordered hmem
  rcases List.mem_append.1 hmem with hmem | hmem
  · exact (List.pairwise_append.1 hordered).2.2 tag hmem last (List.mem_singleton_self last)
  · rw [List.mem_singleton.1 hmem, ← Bool.or_self (last.le last)]
    exact TagInfo.le_total last last

/-- A tag that is later than all others is the last one. -/
theorem lastTag?_of_latest {tag : TagInfo} (hmem : tag ∈ r.tagsIn filter)
    (hlatest : ∀ other ∈ r.tagsIn filter, other = tag ∨ tag.le other = false) :
    r.lastTag? filter = some tag := by
  have hlast : r.lastTag? filter = some _ := List.getLast?_eq_some_getLast (List.ne_nil_of_mem hmem)
  have hle := le_of_lastTag? hlast hmem
  rcases hlatest _ (mem_of_lastTag? hlast) with heq | hnot
  · exact hlast.trans (congrArg some heq)
  · rw [hnot] at hle
    cases hle

/-! ## A new tag -/

variable {name : String} {now : Instant}

/-- A new tag has a name that no tag has, and can be made. -/
theorem newTag_eq_ok {tag : TagInfo} (h : r.newTag name now = .ok tag) :
    r.tags.lookup name = none ∧ r.canTag name = true := by
  unfold newTag at h
  split at h
  · cases h
  · next hnone =>
    split at h
    · next hcan => exact ⟨Option.not_isSome_iff_eq_none.1 hnone, hcan⟩
    · cases h

/-- A tag is not made since there is one of its name, or since it cannot be made. -/
theorem newTag_eq_error {e : HistoryError} (h : r.newTag name now = .error e) :
    (r.tags.lookup name).isSome = true ∨ e = .refused := by
  unfold newTag at h
  split at h
  · next hsome => exact .inl hsome
  · split at h
    · cases h
    · exact .inr (Except.error.inj h).symm

end Repository

end ConventionalRelease
