import ConventionalRelease.Proofs.History.Gaps
import ConventionalRelease.Proofs.Release.Changelog

/-!
# Changelogs of versions only

A changelog may leave out the tags that name no version. The note for a tag is still about the
commits since the tag before it, which may be one that is left out, so a commit is in some note
exactly if the oldest tag that has it names a version. `count_tagStretches_iff` says when the notes
make up the whole history of the last version, and `tagStretches_nightly` is a history of which they
lose a commit.
-/

namespace ConventionalRelease

namespace Project

open Repository (Falls NoGap keptStretches stretches)

variable {p : Project} {trunk : Lineage} {choice : Cli.ChangelogChoice}

/-- Whether a tag names a version. -/
def isVersionTag (tag : TagInfo) : Bool :=
  Version.isVersion tag.name

/-- What the name of a tag stands for. -/
def tipOf (p : Project) (tag : TagInfo) : Lineage :=
  p.repository.tip tag.name

/-- The last tag that names a version. -/
def lastVersionTag? (p : Project) : Option TagInfo :=
  p.tags.reverse.find? isVersionTag

/-- Each tag that names no version, the ones after the last version aside, has a tag before it,
whose name stands for the same commit. -/
def LeavesNoGap (p : Project) : Prop :=
  NoGap p.tipOf isVersionTag (p.tags.reverse.dropWhile (!isVersionTag ·))

/-- The tags that are listed are those that name versions, each with the tag before it, whatever
that names. -/
theorem changelogTags_versionsOnly (hall : choice.all = true) (honly : choice.versionsOnly = true)
    (tags : List TagInfo) :
    Cli.changelogTags choice tags =
      (tags.zip (tags.tail.map some ++ [none])).filter fun pair => isVersionTag pair.1 := by
  rw [Cli.changelogTags, hall, honly]
  rfl

/-- The notes for versions are about the stretches of those tags. -/
theorem tagStretches_versionsOnly (hlinear : p.repository.IsLinear trunk)
    (hhead : p.repository.hasCommits = true) (hall : choice.all = true)
    (honly : choice.versionsOnly = true) :
    p.tagStretches choice = .ok (keptStretches p.tipOf isVersionTag p.tags.reverse) := by
  have hpairs := mapM_commitsIn_pairs hlinear hhead fun tag (htag : tag ∈ p.tags.reverse) =>
    List.mem_reverse.1 htag
  have hfirst : (p.tags.reverse.zip (p.tags.reverse.tail.map some ++ [none])).map (·.1) =
      p.tags.reverse :=
    List.map_fst_zip (by simp; omega)
  rw [tagStretches, changelogTags_versionsOnly hall honly,
    mapM_filter (fun pair => isVersionTag pair.1) hpairs]
  exact congrArg Except.ok (Repository.map_filter_zip hfirst)

/-- The commits that the notes for versions are about, and the logs that these are written from.
While what the names of the tags stand for falls from the last tag back, no commit is in two notes;
where a commit is checked out, a commit is in some note exactly if the oldest tag that has it names
a version; and the notes are about every commit of the last version, each of them once, exactly if a
commit is checked out and no tag leaves a gap. It falls if each tag is put on what the tag before it
is put on or on something later, and each name stands for what is tagged. -/
theorem count_tagStretches_iff (hlinear : p.repository.IsLinear trunk) (hall : choice.all = true)
    (honly : choice.versionsOnly = true) :
    ∃ cut, p.tagStretches choice = .ok cut ∧ p.tagLogs choice = .ok (cut.map (·.map Commit.raw)) ∧
      (Falls p.tips →
        cut.flatten.Nodup ∧
        (p.repository.hasCommits = true → ∀ c, c ∈ cut.flatten ↔
          ∃ tag, p.tags.find? (fun tag => decide (c ∈ p.tipOf tag)) = some tag ∧
            isVersionTag tag = true) ∧
        ∀ newest, p.lastVersionTag? = some newest →
          ((∀ c ∈ p.tipOf newest, cut.flatten.count c = 1) ↔ p.repository.hasCommits = true ∧
            p.LeavesNoGap)) ∧
      ((p.tags.map fun tag => p.repository.tagged tag.name).IsChain (· <:+ ·) →
        (∀ tag ∈ p.tags,
          (p.repository.resolve tag.name).map Descent.lineage =
            .ok (p.repository.tagged tag.name)) →
        Falls p.tips ∧ ∀ tag ∈ p.tags, p.tipOf tag = p.repository.tagged tag.name) := by
  have hclear : (p.tags.map fun tag => p.repository.tagged tag.name).IsChain (· <:+ ·) →
      (∀ tag ∈ p.tags,
        (p.repository.resolve tag.name).map Descent.lineage = .ok (p.repository.tagged tag.name)) →
      Falls p.tips ∧ ∀ tag ∈ p.tags, p.tipOf tag = p.repository.tagged tag.name :=
    fun hascending hclear =>
      ⟨falls_tips hclear hascending, fun tag htag => Repository.tip_eq_of_map (hclear tag htag)⟩
  cases hhas : p.repository.hasCommits with
  | true =>
    have htips : ∀ tag ∈ p.tags.reverse, p.tipOf tag ≠ [] ∧ (p.tipOf tag).Nodup := by
      intro tag htag
      have hon := isOn_tip hlinear (List.mem_reverse.1 htag) fun _ => hhas
      exact ⟨hon.1, hlinear.nodup.sublist hon.2.sublist⟩
    have hcut := tagStretches_versionsOnly hlinear hhas hall honly
    refine ⟨_, hcut, tagLogs_of_tagStretches hcut,
      fun (hfalls : Falls (p.tags.reverse.map p.tipOf)) =>
        ⟨?_, fun _ c => ?_, fun newest hnewest => ?_⟩, hclear⟩
    · exact Repository.nodup_flatten_keptStretches hfalls fun tag htag => (htips tag htag).2
    · rw [Repository.mem_flatten_keptStretches hfalls, List.reverse_reverse]
    · rw [Repository.count_keptStretches_iff hfalls htips hnewest]
      exact ⟨fun h => ⟨rfl, h⟩, fun h => h.2⟩
  | false =>
    obtain ⟨cut, hcut, hflatten⟩ : ∃ cut, p.tagStretches choice = .ok cut ∧ cut.flatten = [] :=
      tagStretches_of_not_hasCommits hhas
    refine ⟨cut, hcut, tagLogs_of_tagStretches hcut,
      fun _ => ⟨?_, nofun, fun newest hnewest => ?_⟩, hclear⟩
    · rw [hflatten]
      exact List.nodup_nil
    · -- the name of a version is not that of what is checked out, so it leads to a commit
      have hat : newest.name ≠ "@" := fun hname => by
        have hversion : isVersionTag newest = true := List.find?_some (p := isVersionTag) hnewest
        rw [isVersionTag, hname] at hversion
        exact absurd hversion (by decide)
      have hmem : newest ∈ p.tags := List.mem_reverse.1 (List.mem_of_find?_eq_some hnewest)
      have hne := (isOn_tip hlinear hmem fun hname => absurd hname hat).1
      obtain ⟨c, hc⟩ := List.exists_mem_of_ne_nil _ hne
      constructor
      · intro hcount
        have hone := hcount c hc
        rw [hflatten] at hone
        cases hone
      · exact nofun

/-- The choice of a changelog of all versions. -/
def allVersions : Cli.ChangelogChoice := { all := true, versionsOnly := true }

/-- Two versions, and a tag without a version between them, on the commit of the first one. -/
def markedTwice : Project where
  config := {}
  repository :=
    { commits := [⟨secondCommit, [firstCommit]⟩, ⟨firstCommit, []⟩]
      branches := [("main", ⟨secondCommit, [firstCommit]⟩)]
      tags := [("1.0.0", .object (some 1700000001) (.commit ⟨firstCommit, []⟩)),
        ("nightly", .object (some 1700000002) (.commit ⟨firstCommit, []⟩)),
        ("1.1.0", .object (some 1700000003) (.commit ⟨secondCommit, [firstCommit]⟩))]
      head := .branch "main" }

/-- They are on one trunk. -/
theorem isLinear_markedTwice : markedTwice.repository.IsLinear [secondCommit, firstCommit] where
  nodup := by decide
  hashes := by decide
  commits := by decide
  branches := by decide
  tags := by decide
  detached := nofun
  names := by decide
  distinct := by decide

/-- Their tags are listed in the order in which they were made. -/
theorem tags_markedTwice : markedTwice.tags =
    [⟨"1.0.0", some ⟨1700000001⟩⟩, ⟨"nightly", some ⟨1700000002⟩⟩, ⟨"1.1.0", some ⟨1700000003⟩⟩] :=
  List.mergeSort_of_pairwise (by decide)

/-- A tag on the commit of the version before it leaves no gap: the notes for the versions are about
both commits. -/
theorem count_tagStretches_markedTwice :
    markedTwice.repository.IsLinear [secondCommit, firstCommit] ∧ Falls markedTwice.tips ∧
      markedTwice.LeavesNoGap ∧
      ∃ cut, markedTwice.tagStretches allVersions = .ok cut ∧
        ∀ c ∈ [secondCommit, firstCommit], cut.flatten.count c = 1 := by
  obtain ⟨cut, hcut, -, hcount, hclear⟩ :=
    @count_tagStretches_iff markedTwice _ allVersions isLinear_markedTwice rfl rfl
  have hascending :
      (markedTwice.tags.map fun tag => markedTwice.repository.tagged tag.name).IsChain
        (· <:+ ·) := by
    rw [tags_markedTwice]
    decide
  have hnames : ∀ tag ∈ markedTwice.tags,
      (markedTwice.repository.resolve tag.name).map Descent.lineage =
        .ok (markedTwice.repository.tagged tag.name) := by
    rw [tags_markedTwice]
    refine List.forall_mem_cons.2 ⟨rfl,
      List.forall_mem_cons.2 ⟨rfl, List.forall_mem_cons.2 ⟨rfl, nofun⟩⟩⟩
  have hlast : markedTwice.lastVersionTag? = some ⟨"1.1.0", some ⟨1700000003⟩⟩ := by
    rw [lastVersionTag?, tags_markedTwice]
    rfl
  have hgap : markedTwice.LeavesNoGap := by
    rw [LeavesNoGap, tags_markedTwice]
    decide
  have hfalls := (hclear hascending hnames).1
  obtain ⟨-, -, hiff⟩ := hcount hfalls
  exact ⟨isLinear_markedTwice, hfalls, hgap, cut, hcut, (hiff _ hlast).2 ⟨rfl, hgap⟩⟩

/-- A third commit. -/
def thirdCommit : Commit :=
  { hash := "c3", author := "Tester", time := 1700000004, offset := 0, message := "feat: c" }

/-- Three commits with a tag each, of which the second one names no version. -/
def nightly : Project where
  config := {}
  repository :=
    { commits := [⟨thirdCommit, [secondCommit, firstCommit]⟩, ⟨secondCommit, [firstCommit]⟩,
        ⟨firstCommit, []⟩]
      branches := [("main", ⟨thirdCommit, [secondCommit, firstCommit]⟩)]
      tags := [("1.0.0", .object (some 1700000001) (.commit ⟨firstCommit, []⟩)),
        ("nightly", .object (some 1700000003) (.commit ⟨secondCommit, [firstCommit]⟩)),
        ("1.1.0", .object (some 1700000005) (.commit ⟨thirdCommit, [secondCommit, firstCommit]⟩))]
      head := .branch "main" }

/-- The commit between the first version and a tag that names none is in no note, though the last
version is based on it. -/
theorem tagStretches_nightly :
    nightly.repository.IsLinear [thirdCommit, secondCommit, firstCommit] ∧
      (nightly.tags.map fun tag => nightly.repository.tagged tag.name).IsChain (· <:+ ·) ∧
      nightly.lastVersionTag? = some ⟨"1.1.0", some ⟨1700000005⟩⟩ ∧
      secondCommit ∈ nightly.repository.tagged "1.1.0" ∧
      nightly.tagStretches allVersions = .ok [[thirdCommit], [firstCommit]] := by
  have htags : nightly.tags =
      [⟨"1.0.0", some ⟨1700000001⟩⟩, ⟨"nightly", some ⟨1700000003⟩⟩,
        ⟨"1.1.0", some ⟨1700000005⟩⟩] :=
    List.mergeSort_of_pairwise (by decide)
  refine ⟨?_, ?_, ?_, by decide, ?_⟩
  · exact {
      nodup := by decide
      hashes := by decide
      commits := by decide
      branches := by decide
      tags := by decide
      detached := nofun
      names := by decide
      distinct := by decide }
  · rw [htags]
    decide
  · rw [lastVersionTag?, htags]
    rfl
  · rw [tagStretches, htags]
    rfl

end Project

end ConventionalRelease
