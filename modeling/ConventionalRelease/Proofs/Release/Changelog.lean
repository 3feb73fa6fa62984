import ConventionalRelease.Cli.Run
import ConventionalRelease.Proofs.History.Range
import ConventionalRelease.Proofs.History.Stretches
import ConventionalRelease.Proofs.History.TagOrder
import ConventionalRelease.Proofs.Release.Plan

/-!
# The commits of a changelog

A changelog of all tags has a note for each tag, about the commits since the tag before it. In a
linear repository these are the stretches of its history between what the names of the tags stand
for (`tagStretches_eq`). `flatten_tagStretches_iff` says when they make up the whole history of the
last tag, and with the note for the next version the whole history of what is checked out.
-/

namespace ConventionalRelease

namespace Project

open Repository (RisesAndFalls Falls stretches between)

variable {p : Project} {trunk : Lineage} {choice : Cli.ChangelogChoice}

/-- The commits that each note for a tag in a changelog is about. -/
def tagStretches (p : Project) (choice : Cli.ChangelogChoice) :
    Except HistoryError (List Lineage) :=
  (Cli.changelogTags choice p.tags.reverse).mapM fun (tag, previous) =>
    p.repository.commitsIn (.of .tag (previous.map (·.name)) (some tag.name))

/-- The logs that the notes for tags in a changelog are written from. -/
def tagLogs (p : Project) (choice : Cli.ChangelogChoice) : Attempt (List (List RawCommit)) :=
  (Cli.changelogTags choice p.tags.reverse).mapM fun (tag, previous) =>
    p.logSince previous (some tag.name)

/-- What the names of the tags lead to, the last tag first. -/
def tips (p : Project) : List Lineage :=
  p.tags.reverse.map fun tag => p.repository.tip tag.name

/-- The logs show the commits that the notes are about. -/
theorem tagLogs_of_tagStretches {cut : List Lineage} (h : p.tagStretches choice = .ok cut) :
    p.tagLogs choice = .ok (cut.map (·.map Commit.raw)) :=
  mapM_eq_ok.2
    (List.forall₂_map_right_iff.2 ((mapM_eq_ok.1 h).imp fun _ _ => logSince_of_commitsIn))

/-- The notes of a changelog are the one for the next version, if there is to be one, and those for
the tags, each written from its log. -/
theorem notes_of_changelogNotes {now : Instant} {notes : List ReleaseNote}
    (h : Cli.changelogNotes p choice now = .ok notes) :
    ∃ writer first older, p.writer = .ok writer ∧ notes = first ++ older ∧
      ∃ logs, p.tagLogs choice = .ok logs ∧
        ((Cli.changelogTags choice p.tags.reverse).zip logs).mapM (fun ((tag, _), log) =>
          Attempt.message (writer.note (Version.parse tag.name).toOption tag.name tag.date log)) =
            .ok older := by
  obtain ⟨writer, hwriter, h⟩ := bind_eq_ok.1 h
  have holder : ∃ first older, notes = first ++ older ∧
      (Cli.changelogTags choice p.tags.reverse).mapM (fun (tag, previous) =>
        p.noteSince writer previous tag) = .ok older := by
    dsimp only at h
    split at h
    · obtain ⟨next, -, h⟩ := bind_eq_ok.1 h
      obtain ⟨first, -, h⟩ := bind_eq_ok.1 h
      obtain ⟨older, holder, hret⟩ := bind_eq_ok.1 h
      exact ⟨first, older, (Except.ok.inj hret).symm, holder⟩
    · obtain ⟨first, -, h⟩ := bind_eq_ok.1 h
      obtain ⟨older, holder, hret⟩ := bind_eq_ok.1 h
      exact ⟨first, older, (Except.ok.inj hret).symm, holder⟩
  obtain ⟨first, older, rfl, holder⟩ := holder
  obtain ⟨logs, hlogs, hnotes⟩ := mapM_bind_eq_ok.1 holder
  refine ⟨writer, first, older, hwriter, rfl, logs, ?_, hnotes⟩
  exact mapM_eq_ok.2 ((mapM_eq_ok.1 hlogs).imp fun _ _ hlog => Attempt.within_eq_ok.1 hlog)

/-- Every tag of a version is a tag of the repository. -/
theorem mem_tags {tag : TagInfo} (h : tag ∈ p.tags) : ∃ e ∈ p.repository.tags, e.1 = tag.name := by
  obtain ⟨e, he, -, rfl⟩ := Repository.mem_tagsIn.1 h
  exact ⟨e, he, rfl⟩

/-- The name of a tag of a version is not empty. -/
theorem ne_empty_of_mem_tags (hnames : p.repository.HasTagNames) {tag : TagInfo}
    (h : tag ∈ p.tags) : tag.name ≠ "" := by
  obtain ⟨e, he, hname⟩ := mem_tags h
  exact hname ▸ Repository.ne_empty_of_isTagName (hnames.names e he)

/-- In a linear repository the name of a tag of a version leads to a commit. -/
theorem resolve_of_mem_tags (hlinear : p.repository.IsLinear trunk) {tag : TagInfo}
    (h : tag ∈ p.tags) (hhead : tag.name = "@" → p.repository.hasCommits = true) :
    ∃ descent, p.repository.resolve tag.name = .ok descent := by
  obtain ⟨e, he, hname⟩ := mem_tags h
  rw [← hname] at hhead ⊢
  exact hlinear.resolve_tagName he hhead

/-- The commits since a tag are those that the end of the range is based on and the tag is not. -/
theorem commitsIn_since (hnames : p.repository.HasTagNames)
    (hhead : p.repository.hasCommits = true) {previous : Option TagInfo}
    (hprevious : ∀ t ∈ previous, t ∈ p.tags ∧ ∃ first, p.repository.resolve t.name = .ok first)
    {stop : Option String} (hne : ∀ s ∈ stop, s ≠ "") {last : Descent}
    (hstop : p.repository.resolve (stop.getD "HEAD") = .ok last) :
    p.repository.commitsIn (.of .tag (previous.map (·.name)) stop) =
      .ok (between last.lineage
        ((previous.map fun t => p.repository.tip t.name).getD [])) := by
  have hstart : ∀ s ∈ previous.map (·.name), s ≠ "" ∧
      ∃ first, p.repository.resolve s = .ok first := by
    intro s hs
    obtain ⟨t, ht, rfl⟩ := Option.map_eq_some_iff.1 hs
    obtain ⟨hmem, hfirst⟩ := hprevious t ht
    exact ⟨ne_empty_of_mem_tags hnames hmem, hfirst⟩
  rw [Repository.commitsIn_tags hhead hstart hne hstop, Option.map_map]
  rfl

/-- The commits of a note are those that its tag is based on and the tag before it is not. -/
theorem commitsIn_of_mem_tags (hlinear : p.repository.IsLinear trunk)
    (hhead : p.repository.hasCommits = true) {tag : TagInfo} (htag : tag ∈ p.tags)
    {previous : Option TagInfo} (hprevious : ∀ t ∈ previous, t ∈ p.tags) :
    p.repository.commitsIn (.of .tag (previous.map (·.name)) (some tag.name)) =
      .ok (between (p.repository.tip tag.name)
        ((previous.map fun t => p.repository.tip t.name).getD [])) := by
  obtain ⟨last, hlast⟩ := resolve_of_mem_tags hlinear htag fun _ => hhead
  have hne : ∀ s ∈ some tag.name, s ≠ "" := fun s hs =>
    Option.mem_some.1 hs ▸ ne_empty_of_mem_tags hlinear.hasTagNames htag
  have hleads : ∀ t ∈ previous, t ∈ p.tags ∧ ∃ first, p.repository.resolve t.name = .ok first :=
    fun t ht => ⟨hprevious t ht, resolve_of_mem_tags hlinear (hprevious t ht) fun _ => hhead⟩
  rw [commitsIn_since hlinear.hasTagNames hhead hleads hne hlast, Repository.tip_eq hlast]

/-- Tags that follow each other cut the history into the stretches between what their names stand
for. -/
theorem mapM_commitsIn_pairs (hlinear : p.repository.IsLinear trunk)
    (hhead : p.repository.hasCommits = true) {tags : List TagInfo}
    (htags : ∀ tag ∈ tags, tag ∈ p.tags) :
    ((tags.zip (tags.tail.map some ++ [none])).mapM fun (entry : TagInfo × Option TagInfo) =>
      p.repository.commitsIn (.of .tag (entry.2.map (·.name)) (some entry.1.name))) =
        .ok (stretches (tags.map fun tag => p.repository.tip tag.name)) := by
  induction tags with
  | nil => rfl
  | cons tag rest ih =>
    obtain ⟨htag, hrest⟩ := List.forall_mem_cons.1 htags
    cases rest with
    | nil =>
      refine mapM_eq_ok.2 (.cons ?_ .nil)
      have hnone : ∀ t ∈ (none : Option TagInfo), t ∈ p.tags := fun t ht => by cases ht
      exact commitsIn_of_mem_tags hlinear hhead htag hnone
    | cons previous rest =>
      refine mapM_eq_ok.2 (.cons ?_ (mapM_eq_ok.1 (ih hrest)))
      have hsome : ∀ t ∈ some previous, t ∈ p.tags := fun t ht =>
        hrest t (Option.mem_some.1 ht ▸ List.mem_cons_self)
      exact commitsIn_of_mem_tags hlinear hhead htag hsome

/-- A changelog of all tags cuts the history into the stretches between what the names of the tags
stand for. -/
theorem tagStretches_eq (hlinear : p.repository.IsLinear trunk)
    (hhead : p.repository.hasCommits = true) (hall : choice.all = true)
    (hany : choice.versionsOnly = false) :
    p.tagStretches choice = .ok (stretches p.tips) := by
  rw [tagStretches, Cli.changelogTags, hall, hany]
  exact mapM_commitsIn_pairs hlinear hhead fun tag htag => List.mem_reverse.1 htag

/-- Where no commit is checked out, no note is about any commit. -/
theorem tagStretches_of_not_hasCommits (h : p.repository.hasCommits = false) :
    ∃ cut, p.tagStretches choice = .ok cut ∧ cut.flatten = [] := by
  refine ⟨(Cli.changelogTags choice p.tags.reverse).map fun _ => [], mapM_eq_ok.2 ?_, by simp⟩
  refine List.forall₂_map_right_iff.2 (List.forall₂_same.2 fun entry _ => ?_)
  exact Repository.commitsIn_of_not_hasCommits h _

/-- What the name of a tag leads to is a commit on the trunk. -/
theorem isOn_tip (hlinear : p.repository.IsLinear trunk) {tag : TagInfo} (h : tag ∈ p.tags)
    (hhead : tag.name = "@" → p.repository.hasCommits = true) :
    p.repository.tip tag.name ≠ [] ∧ p.repository.tip tag.name <:+ trunk := by
  obtain ⟨descent, hdescent⟩ := resolve_of_mem_tags hlinear h hhead
  rw [Repository.tip_eq hdescent]
  exact ⟨descent.lineage_ne_nil, hlinear.resolve_isOn hdescent⟩

/-- Where a commit is checked out, the tips are commits on the trunk. -/
theorem isOn_of_mem_tips (hlinear : p.repository.IsLinear trunk)
    (hhead : p.repository.hasCommits = true) {tip : Lineage} (h : tip ∈ p.tips) :
    tip ≠ [] ∧ tip <:+ trunk := by
  obtain ⟨tag, htag, rfl⟩ := List.mem_map.1 h
  exact isOn_tip hlinear (List.mem_reverse.1 htag) fun _ => hhead

/-- What a tag was put on is a commit on the trunk. -/
theorem isOn_tagged (hlinear : p.repository.IsLinear trunk) {tag : TagInfo} (h : tag ∈ p.tags) :
    p.repository.tagged tag.name ≠ [] ∧ p.repository.tagged tag.name <:+ trunk := by
  obtain ⟨e, he, hname⟩ := mem_tags h
  obtain ⟨found, hfound⟩ := Option.isSome_iff_exists.1
    (List.lookup_isSome_iff.2 ⟨e, he, beq_iff_eq.2 hname.symm⟩)
  obtain ⟨descent, hdescent, hon⟩ := hlinear.tags _ (mem_of_lookup hfound)
  rw [Repository.tagged, hfound, Option.bind_some, Option.mem_def.1 hdescent]
  exact ⟨descent.lineage_ne_nil, hon⟩

/-- The first tip is what the name of the last tag leads to. -/
theorem head?_tips : p.tips.head? = p.lastTag?.map fun tag => p.repository.tip tag.name := by
  rw [tips, List.head?_map, List.head?_reverse]
  rfl

/-- The commits since the last tag are the first stretch of the history of what is checked out. -/
theorem commitsIn_since_lastTag (hlinear : p.repository.IsLinear trunk) {head : Descent}
    (hhead : p.repository.head? = some head) :
    ∃ recent, p.repository.commitsIn (.of .tag (p.lastTag?.map (·.name)) none) = .ok recent ∧
      recent ++ (stretches p.tips).flatten = (stretches (head.lineage :: p.tips)).flatten := by
  have hhas := Repository.hasCommits_of_head? hhead
  have hmem : ∀ t ∈ p.lastTag?, t ∈ p.tags ∧ ∃ first, p.repository.resolve t.name = .ok first :=
    fun t ht =>
      have ht := Repository.mem_of_lastTag? ht
      ⟨ht, resolve_of_mem_tags hlinear ht fun _ => hhas⟩
  have hne : ∀ s ∈ (none : Option String), s ≠ "" := fun s hs => by cases hs
  have hstop : p.repository.resolve ((none : Option String).getD "HEAD") = .ok head :=
    hlinear.hasHashes.resolve_head hhead
  refine ⟨_, commitsIn_since hlinear.hasTagNames hhas hmem hne hstop, ?_⟩
  rw [Repository.flatten_stretches_cons, head?_tips]

/-- If each tag is put on what the tag before it is put on or on something later, and the names of
the tags lead to what is tagged, then the tips fall. -/
theorem falls_tips (hclear : ∀ tag ∈ p.tags,
      (p.repository.resolve tag.name).map Descent.lineage = .ok (p.repository.tagged tag.name))
    (hascending : (p.tags.map fun tag => p.repository.tagged tag.name).IsChain (· <:+ ·)) :
    Falls p.tips := by
  have htips : p.tips = (p.tags.map fun tag => p.repository.tagged tag.name).reverse := by
    rw [tips, List.map_reverse]
    refine congrArg List.reverse (List.map_congr_left fun tag htag => ?_)
    exact Repository.tip_eq_of_map (hclear tag htag)
  rw [htips, Falls, List.isChain_reverse]
  exact hascending

/-- Where the names of the tags lead to what is tagged, the first tip is what the last tag is put
on. -/
theorem head?_tips_of_clear (hclear : ∀ tag ∈ p.tags,
      (p.repository.resolve tag.name).map Descent.lineage = .ok (p.repository.tagged tag.name))
    {newest : TagInfo} (hnewest : p.lastTag? = some newest) :
    p.tips.head? = some (p.repository.tagged newest.name) := by
  rw [head?_tips, hnewest, Option.map_some,
    Repository.tip_eq_of_map (hclear newest (Repository.mem_of_lastTag? hnewest))]

/-- Tips that fall from what the last tag is put on rise to it at once. -/
theorem risesAndFalls_tips (hclear : ∀ tag ∈ p.tags,
      (p.repository.resolve tag.name).map Descent.lineage = .ok (p.repository.tagged tag.name))
    (hfalls : Falls p.tips) {newest : TagInfo} (hnewest : p.lastTag? = some newest) :
    RisesAndFalls (p.repository.tagged newest.name) p.tips := by
  obtain ⟨older, holder⟩ := List.head?_eq_some_iff.1 (head?_tips_of_clear hclear hnewest)
  rw [holder] at hfalls ⊢
  exact .falls hfalls

/-- Tips that fall also fall from what is checked out, if that is based on what the last tag is put
on. -/
theorem falls_cons_tips (hclear : ∀ tag ∈ p.tags,
      (p.repository.resolve tag.name).map Descent.lineage = .ok (p.repository.tagged tag.name))
    (hfalls : Falls p.tips) {head : Lineage}
    (hhead : ∀ newest, p.lastTag? = some newest → p.repository.tagged newest.name <:+ head) :
    Falls (head :: p.tips) := by
  cases hlast : p.lastTag? with
  | none =>
    have hnil : p.tips.head? = none := by
      rw [head?_tips, hlast]
      rfl
    rw [List.head?_eq_none_iff.1 hnil]
    exact List.isChain_singleton head
  | some newest =>
    obtain ⟨older, holder⟩ := List.head?_eq_some_iff.1 (head?_tips_of_clear hclear hlast)
    rw [holder] at hfalls ⊢
    exact List.isChain_cons_cons.2 ⟨hhead newest hlast, hfalls⟩

/-- The commits that the notes of a changelog of all tags are about make up the whole history of the
last tag, each once and in order, exactly if a commit is checked out and what the names of the tags
stand for, from the last tag back, rises to that tag and falls from there on. With those that the
note for the next version is about they make up the whole history of what is checked out exactly if
it falls all the way from there. Both are so if each tag is put on what the tag before it is put on
or on something later, and each name stands for what is tagged. -/
theorem flatten_tagStretches_iff (hlinear : p.repository.IsLinear trunk) (hall : choice.all = true)
    (hany : choice.versionsOnly = false) :
    ∃ cut, p.tagStretches choice = .ok cut ∧ p.tagLogs choice = .ok (cut.map (·.map Commit.raw)) ∧
      (∀ newest, p.lastTag? = some newest →
        (cut.flatten = p.repository.tagged newest.name ↔ p.repository.hasCommits = true ∧
          RisesAndFalls (p.repository.tagged newest.name) p.tips)) ∧
      (∀ head, p.repository.head? = some head → ∃ recent,
        p.repository.commitsIn (.of .tag (p.lastTag?.map (·.name)) none) = .ok recent ∧
        (∀ writer next, p.nextVersion writer = .ok next →
          writer.convention.readLog (recent.map Commit.raw) = .ok next.commits) ∧
        (recent ++ cut.flatten = head.lineage ↔ Falls (head.lineage :: p.tips))) ∧
      ((p.tags.map fun tag => p.repository.tagged tag.name).IsChain (· <:+ ·) →
        (∀ tag ∈ p.tags,
          (p.repository.resolve tag.name).map Descent.lineage =
            .ok (p.repository.tagged tag.name)) →
        (∀ newest, p.lastTag? = some newest →
          RisesAndFalls (p.repository.tagged newest.name) p.tips) ∧
        ∀ head, (∀ newest, p.lastTag? = some newest → p.repository.tagged newest.name <:+ head) →
          Falls (head :: p.tips)) := by
  have hcut : ∃ cut, p.tagStretches choice = .ok cut ∧
      cut.flatten = if p.repository.hasCommits then (stretches p.tips).flatten else [] := by
    cases hhas : p.repository.hasCommits with
    | true => exact ⟨stretches p.tips, tagStretches_eq hlinear hhas hall hany, rfl⟩
    | false => exact tagStretches_of_not_hasCommits hhas
  obtain ⟨cut, hcut, hflatten⟩ := hcut
  refine ⟨cut, hcut, tagLogs_of_tagStretches hcut, ?_, ?_, ?_⟩
  · intro newest hnewest
    have hon := isOn_tagged hlinear (Repository.mem_of_lastTag? hnewest)
    rw [hflatten]
    cases hhas : p.repository.hasCommits with
    | true =>
      have htips : ∀ tip ∈ p.tips, tip ≠ [] ∧ tip <:+ trunk := fun _ =>
        isOn_of_mem_tips hlinear hhas
      rw [if_pos rfl, Repository.flatten_stretches_iff hlinear.nodup hon htips]
      exact ⟨fun h => ⟨rfl, h⟩, fun h => h.2⟩
    | false => exact ⟨fun h => absurd h.symm hon.1, nofun⟩
  · intro head hhead
    have hhas : p.repository.hasCommits = true := by
      rw [Repository.hasCommits, hhead]
      rfl
    have hon : head.lineage ≠ [] ∧ head.lineage <:+ trunk :=
      ⟨head.lineage_ne_nil, hlinear.head hhead⟩
    obtain ⟨recent, hrecent, hfirst⟩ := commitsIn_since_lastTag hlinear hhead
    refine ⟨recent, hrecent, fun writer next hnext => ?_, ?_⟩
    · obtain ⟨hcurrent, log, hlog, hcommits, -⟩ := nextVersion_eq_ok.1 hnext
      rw [(currentVersion_eq_ok.1 hcurrent).1, logSince_of_commitsIn hrecent] at hlog
      rw [Except.ok.inj hlog, hcommits]
    · have hall : ∀ tip ∈ head.lineage :: p.tips, tip ≠ [] ∧ tip <:+ trunk :=
        List.forall_mem_cons.2 ⟨hon, fun _ => isOn_of_mem_tips hlinear hhas⟩
      rw [hflatten, hhas, if_pos rfl, hfirst,
        Repository.flatten_stretches_iff hlinear.nodup hon hall]
      exact ⟨RisesAndFalls.to_falls, RisesAndFalls.falls⟩
  · intro hascending hclear
    have hfalls := falls_tips hclear hascending
    exact ⟨fun _ hnewest => risesAndFalls_tips hclear hfalls hnewest,
      fun _ hhead => falls_cons_tips hclear hfalls hhead⟩

/-- The first of two commits. -/
def firstCommit : Commit :=
  { hash := "c1", author := "Tester", time := 1700000000, offset := 0, message := "feat: a" }

/-- The second one. -/
def secondCommit : Commit :=
  { hash := "c2", author := "Tester", time := 1700000002, offset := 0, message := "feat: b" }

/-- Two commits with a tag each. -/
def twoReleases : Project where
  config := {}
  repository :=
    { commits := [⟨secondCommit, [firstCommit]⟩, ⟨firstCommit, []⟩]
      branches := [("main", ⟨secondCommit, [firstCommit]⟩)]
      tags := [("1.0.0", .object (some 1700000001) (.commit ⟨firstCommit, []⟩)),
        ("1.1.0", .object (some 1700000003) (.commit ⟨secondCommit, [firstCommit]⟩))]
      head := .branch "main" }

/-- They are on one trunk. -/
theorem isLinear_twoReleases : twoReleases.repository.IsLinear [secondCommit, firstCommit] where
  nodup := by decide
  hashes := by decide
  commits := by decide
  branches := by decide
  tags := by decide
  detached := nofun
  names := by decide
  distinct := by decide

/-- Their tags are listed in the order in which they were made. -/
theorem tags_twoReleases :
    twoReleases.tags = [⟨"1.0.0", some ⟨1700000001⟩⟩, ⟨"1.1.0", some ⟨1700000003⟩⟩] :=
  List.mergeSort_of_pairwise (by decide)

/-- The changelog of two tagged commits is about both. -/
theorem flatten_tagStretches_twoReleases :
    ∃ cut, twoReleases.tagStretches { all := true } = .ok cut ∧
      cut.flatten = [secondCommit, firstCommit] := by
  obtain ⟨cut, hcut, -, hiff, -, hclear⟩ :=
    @flatten_tagStretches_iff twoReleases _ { all := true } isLinear_twoReleases rfl rfl
  refine ⟨cut, hcut, ?_⟩
  have hlast : twoReleases.lastTag? = some ⟨"1.1.0", some ⟨1700000003⟩⟩ := by
    show twoReleases.tags.getLast? = _
    rw [tags_twoReleases]
    rfl
  have hascending : (twoReleases.tags.map fun tag => twoReleases.repository.tagged tag.name).IsChain
      (· <:+ ·) := by
    rw [tags_twoReleases]
    decide
  have hnames : ∀ tag ∈ twoReleases.tags,
      (twoReleases.repository.resolve tag.name).map Descent.lineage =
        .ok (twoReleases.repository.tagged tag.name) := by
    rw [tags_twoReleases]
    refine List.forall_mem_cons.2 ⟨rfl, List.forall_mem_cons.2 ⟨rfl, nofun⟩⟩
  exact (hiff _ hlast).2 ⟨rfl, (hclear hascending hnames).1 _ hlast⟩

/-- A tagged commit, and a branch without commits that is checked out. -/
def orphaned : Project where
  config := {}
  repository :=
    { commits := [⟨firstCommit, []⟩]
      branches := [("main", ⟨firstCommit, []⟩)]
      tags := [("1.0.0", .object (some 1700000001) (.commit ⟨firstCommit, []⟩))]
      head := .branch "topic" }

/-- Where the branch that is checked out has no commits, the note for a tag is about no commit
either. -/
theorem tagStretches_orphaned :
    orphaned.repository.IsLinear [firstCommit] ∧
      (orphaned.tags.map fun tag => orphaned.repository.tagged tag.name).IsChain (· <:+ ·) ∧
      orphaned.lastTag? = some ⟨"1.0.0", some ⟨1700000001⟩⟩ ∧
      orphaned.repository.tagged "1.0.0" = [firstCommit] ∧
      orphaned.tagStretches { all := true } = .ok [[]] := by
  have htags : orphaned.tags = [⟨"1.0.0", some ⟨1700000001⟩⟩] :=
    List.mergeSort_of_pairwise (by decide)
  refine ⟨?_, ?_, ?_, rfl, ?_⟩
  · exact {
      nodup := by decide
      hashes := by decide
      commits := by decide
      branches := by decide
      tags := by decide
      detached := nofun
      names := by decide
      distinct := by decide }
  · rw [htags]
    exact List.isChain_singleton _
  · show orphaned.tags.getLast? = _
    rw [htags]
    rfl
  · rw [tagStretches, htags]
    rfl

end Project

end ConventionalRelease
