import ConventionalRelease.Proofs.History.TagOrder
import ConventionalRelease.Proofs.Release.Plan
import ConventionalRelease.Proofs.Version.Precedence

/-!
# The last tag and the greatest version

The current version is that of the last tag, in the order of time and then of names. Where a smaller
version is never tagged later than a greater one, only tags of one time can come in another order
than their versions: names are compared character by character, and so `1.10.0` comes before
`1.9.0`. The current version is the greatest one exactly if no tag of a smaller version hides the
greatest in this way (`Project.currentVersion_greatest_iff`).
-/

namespace ConventionalRelease

/-- The version that a tag names. -/
def TagInfo.version (tag : TagInfo) : Version :=
  (Version.parse tag.name).toOption.getD .zero

/-- Whether none of the tags names a version that comes after the version. -/
def Version.IsGreatestOf (v : Version) (tags : List TagInfo) : Prop :=
  ∀ tag ∈ tags, tag.version.AtMost v

instance (v : Version) (tags : List TagInfo) : Decidable (v.IsGreatestOf tags) :=
  inferInstanceAs (Decidable (∀ tag ∈ tags, _))

/-- Whether a tag of a smaller version comes after those of the greatest version: it was made at the
same time, and its name comes after theirs. -/
def TagInfo.HidesGreatest (tag : TagInfo) (tags : List TagInfo) : Prop :=
  ¬ tag.version.IsGreatestOf tags ∧
    ∀ other ∈ tags, other.version.IsGreatestOf tags → tag.date = other.date ∧ other.name < tag.name

instance (tag : TagInfo) (tags : List TagInfo) : Decidable (tag.HidesGreatest tags) :=
  inferInstanceAs (Decidable (_ ∧ ∀ other ∈ tags, _))

namespace Project

variable {p : Project} {last tag : TagInfo}

/-- A last tag that does not name the greatest version hides it. -/
theorem hidesGreatest_of_lastTag? (hlast : p.lastTag? = some last)
    (hdates : ∀ a ∈ p.tags, ∀ b ∈ p.tags, a.version.Precedes b.version →
      TagInfo.dateLE a.date b.date = true)
    (h : ¬ last.version.IsGreatestOf p.tags) : last.HidesGreatest p.tags := by
  have hmem : last ∈ p.tags := Repository.mem_of_lastTag? hlast
  refine ⟨h, fun greatest hgreatest hmax => ?_⟩
  have hless : last.version.Precedes greatest.version := by
    refine Version.precedes_of_not_atMost fun hle => h fun tag htag => ?_
    exact (hmax tag htag).trans hle
  have hdate := hdates last hmem greatest hgreatest hless
  rcases TagInfo.le_iff.1 (Repository.le_of_lastTag? hlast hgreatest) with
    ⟨hsame, hname⟩ | ⟨hdiffer, hearlier⟩
  · refine ⟨hsame.symm, Decidable.not_not.1 fun hnot => ?_⟩
    have hnames : greatest.name = last.name := String.le_antisymm hname (String.not_lt.1 hnot)
    have hversions : greatest.version = last.version := by
      rw [TagInfo.version, TagInfo.version, hnames]
    rw [hversions] at hless
    exact hless.not_atMost (.refl last.version)
  · exact absurd (TagInfo.dateLE_antisymm hearlier hdate) hdiffer

/-- A last tag that names the greatest version is hidden by no other. -/
theorem not_hidesGreatest_of_lastTag? (hlast : p.lastTag? = some last)
    (h : last.version.IsGreatestOf p.tags) (hmem : tag ∈ p.tags) : ¬ tag.HidesGreatest p.tags := by
  rintro ⟨-, hhides⟩
  obtain ⟨hsame, hname⟩ := hhides last (Repository.mem_of_lastTag? hlast) h
  rcases TagInfo.le_iff.1 (Repository.le_of_lastTag? hlast hmem) with ⟨-, hle⟩ | ⟨hdiffer, -⟩
  · exact absurd hname (String.not_lt.2 hle)
  · exact hdiffer hsame

/-- A name that can be read as a version names that version. -/
theorem parse_eq_version (h : Version.isVersion tag.name = true) :
    Version.parse tag.name = .ok tag.version := by
  rw [Version.isVersion] at h
  split at h
  · next v hv => rw [TagInfo.version, hv]; rfl
  · cases h

/-- Where every tag names a version, and a smaller version is never tagged later than a greater one,
there is a current version. Without tags it is the one before all releases. Otherwise the last tag
names it, and it is the greatest exactly if no tag of a smaller version hides the greatest one,
being of the same time and of a later name. -/
theorem currentVersion_greatest_iff (hversions : ∀ tag ∈ p.tags, Version.isVersion tag.name = true)
    (hdates : ∀ a ∈ p.tags, ∀ b ∈ p.tags, a.version.Precedes b.version →
      TagInfo.dateLE a.date b.date = true) :
    ∃ current, p.currentVersion = .ok current ∧ (p.tags = [] → current.version = .zero) ∧
      (p.tags ≠ [] → (∃ tag ∈ p.tags, current.tag = some tag ∧ current.version = tag.version) ∧
        (current.version.IsGreatestOf p.tags ↔ ∀ tag ∈ p.tags, ¬ tag.HidesGreatest p.tags)) := by
  cases hlast : p.lastTag? with
  | none =>
    have hnil : p.tags = [] := List.getLast?_eq_none_iff.1 hlast
    exact ⟨⟨none, .zero⟩, currentVersion_eq_ok.2 ⟨hlast.symm, rfl⟩, fun _ => rfl,
      fun hne => absurd hnil hne⟩
  | some last =>
    have hmem : last ∈ p.tags := Repository.mem_of_lastTag? hlast
    refine ⟨⟨some last, last.version⟩, ?_,
      fun hnil => absurd hnil (List.ne_nil_of_mem hmem), fun _ =>
      ⟨⟨last, hmem, rfl, rfl⟩, fun h tag htag => not_hidesGreatest_of_lastTag? hlast h htag,
        fun h => ?_⟩⟩
    · exact currentVersion_eq_ok.2 ⟨hlast.symm, parse_eq_version (hversions last hmem)⟩
    · by_contra hnot
      exact h last hmem (hidesGreatest_of_lastTag? hlast hdates hnot)

/-- A project whose only commit has a tag of each name, made at the given time. -/
def tagged (tags : List (String × Int)) : Project where
  config := {}
  repository :=
    let commit : Commit :=
      { hash := "c1", author := "Tester", time := 1700000000, offset := 0, message := "feat: a" }
    { commits := [⟨commit, []⟩]
      branches := [("main", ⟨commit, []⟩)]
      tags := tags.map fun (name, time) => (name, .object (some time) (.commit ⟨commit, []⟩))
      head := .branch "main" }

/-- Two versions of one time after another, the greater one of the later name. -/
def minorsTogether : Project :=
  tagged [("0.9.0", 1700000001), ("1.8.0", 1700000002), ("1.9.0", 1700000002)]

/-- They are listed by their times, and then by their names. -/
theorem tags_minorsTogether : minorsTogether.tags =
    [⟨"0.9.0", some ⟨1700000001⟩⟩, ⟨"1.8.0", some ⟨1700000002⟩⟩, ⟨"1.9.0", some ⟨1700000002⟩⟩] :=
  List.mergeSort_of_pairwise (by decide)

/-- Of versions of one time the last by name may be the greatest. -/
theorem currentVersion_greatest_minorsTogether :
    ∃ current, minorsTogether.currentVersion = .ok current ∧
      current.version.IsGreatestOf minorsTogether.tags := by
  obtain ⟨current, hcurrent, -, hgreatest⟩ := @currentVersion_greatest_iff minorsTogether
    (by rw [tags_minorsTogether]; decide)
    (by rw [tags_minorsTogether]; decide)
  have hnone : ∀ tag ∈ minorsTogether.tags, ¬ tag.HidesGreatest minorsTogether.tags := by
    rw [tags_minorsTogether]
    decide
  exact ⟨current, hcurrent, (hgreatest (by rw [tags_minorsTogether]; nofun)).2.2 hnone⟩

/-- Two versions of one time, the greater one of the earlier name: names are compared by their
characters. -/
def digitsTogether : Project :=
  tagged [("1.10.0", 1700000001), ("1.9.0", 1700000001)]

/-- They are listed by their names. -/
theorem tags_digitsTogether : digitsTogether.tags =
    [⟨"1.10.0", some ⟨1700000001⟩⟩, ⟨"1.9.0", some ⟨1700000001⟩⟩] :=
  List.mergeSort_of_pairwise (by decide)

/-- The smaller version hides the greatest one, though it is tagged no later. -/
theorem currentVersion_digitsTogether :
    (∀ tag ∈ digitsTogether.tags, Version.isVersion tag.name = true) ∧
      (∀ a ∈ digitsTogether.tags, ∀ b ∈ digitsTogether.tags, a.version.Precedes b.version →
        TagInfo.dateLE a.date b.date = true) ∧
      ∃ current, digitsTogether.currentVersion = .ok current ∧
        current.version = { major := 1, minor := 9, patch := 0 } ∧
        ¬ current.version.IsGreatestOf digitsTogether.tags := by
  have hlast : digitsTogether.lastTag? = some ⟨"1.9.0", some ⟨1700000001⟩⟩ :=
    congrArg List.getLast? tags_digitsTogether
  rw [tags_digitsTogether]
  refine ⟨by decide, by decide,
    ⟨some ⟨"1.9.0", some ⟨1700000001⟩⟩, { major := 1, minor := 9, patch := 0 }⟩, ?_, rfl,
    by decide⟩
  exact currentVersion_eq_ok.2 ⟨hlast.symm, rfl⟩

end Project

end ConventionalRelease
