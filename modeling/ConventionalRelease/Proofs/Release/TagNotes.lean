import ConventionalRelease.Proofs.Release.Changelog

/-!
# One tag in three commands

The note for a tag, its note in a changelog of all tags and the list of its commits are about the
commits since the tag before it, and each command looks for that tag in its own way: by the place in
the list of tags, or by the next place in the list from its end. Since no two tags have the same
name, these come to the same tag (`previousTag_eq`), and a changelog of all tags is made of the
notes for them (`changelogNotes_eq`). Their log can be shown unless one of the two tags leads to no
commit (`logSince_eq_error`). `tagCommands_agree` says what this means for a tag.
-/

namespace ConventionalRelease

/-! ## The tag before another -/

namespace Repository

variable {r : Repository}

/-- The tags that a filter admits have distinct names. -/
theorem nodup_tagsIn (h : (r.tags.map (·.1)).Nodup) (filter : String) :
    ((r.tagsIn filter).map (·.name)).Nodup := by
  have hadmitted : ((r.tags.filter fun tag => filterAdmits filter tag.1).map (·.1)).Nodup :=
    h.sublist (List.filter_sublist.map _)
  refine ((List.mergeSort_perm _ TagInfo.le).map _).nodup_iff.2 ?_
  rwa [List.map_map]

variable {filter : String} {before after : List TagInfo} {tag : TagInfo}

/-- No tag of the list before a tag has its name. -/
theorem name_ne_of_mem (hnames : ((r.tagsIn filter).map (·.name)).Nodup)
    (hsplit : r.tagsIn filter = before ++ tag :: after) :
    ∀ other ∈ before, other.name ≠ tag.name := by
  rw [hsplit, List.map_append, List.map_cons, List.nodup_middle, List.nodup_cons] at hnames
  intro other hother hname
  exact hnames.1 (List.mem_append_left _ (hname ▸ List.mem_map_of_mem hother))

/-- A tag is found by its name. -/
theorem findTag_eq (hnames : ((r.tagsIn filter).map (·.name)).Nodup)
    (hsplit : r.tagsIn filter = before ++ tag :: after) : r.findTag tag.name filter = .ok tag := by
  have hfind : (r.tagsIn filter).find? (·.name = tag.name) = some tag := by
    refine List.find?_eq_some_iff_append.2 ⟨by simp, before, after, hsplit, fun other hother => ?_⟩
    simp [name_ne_of_mem hnames hsplit other hother]
  rw [findTag, hfind]

/-- The tag before another is the one at the place before it. -/
theorem previousTag_eq (hnames : ((r.tagsIn filter).map (·.name)).Nodup)
    (hsplit : r.tagsIn filter = before ++ tag :: after) :
    r.previousTag tag.name filter = .ok before.getLast? := by
  have hbefore : before.findIdx? (·.name = tag.name) = none := by
    refine List.findIdx?_eq_none_iff.2 fun other hother => ?_
    simp [name_ne_of_mem hnames hsplit other hother]
  have hplace : (r.tagsIn filter).findIdx? (·.name = tag.name) = some before.length := by
    rw [hsplit, List.findIdx?_append, hbefore, List.findIdx?_cons]
    simp
  rw [previousTag, hplace, hsplit]
  cases before using List.reverseRecOn with
  | nil => rfl
  | append_singleton front last _ =>
    simp

end Repository

namespace Cli

/-- In a changelog of all tags, the tag before another is the one at the next place of the list from
its end. -/
theorem changelogTags_getElem? {choice : ChangelogChoice} (hall : choice.all = true)
    (hany : choice.versionsOnly = false) (tags : List TagInfo) (i : Nat) :
    (changelogTags choice tags)[i]? = tags[i]?.map fun tag => (tag, tags[i + 1]?) := by
  rw [changelogTags, hall, hany]
  show (tags.zip (tags.tail.map some ++ [none]))[i]? = _
  induction tags generalizing i with
  | nil => rfl
  | cons tag rest ih =>
    cases i with
    | zero => cases rest <;> rfl
    | succ i =>
      cases rest with
      | nil => rfl
      | cons other rest => exact ih i

/-- A changelog of all tags lists them all. -/
theorem map_fst_changelogTags {choice : ChangelogChoice} (hall : choice.all = true)
    (hany : choice.versionsOnly = false) (tags : List TagInfo) :
    (changelogTags choice tags).map (·.1) = tags := by
  rw [changelogTags, hall, hany]
  exact List.map_fst_zip (by simp; omega)

end Cli

namespace Project

variable {p : Project} {tag : TagInfo} {before after : List TagInfo} {writer : ReleaseWriter}
  {choice : Cli.ChangelogChoice}

/-- No two tags of versions have the same name. -/
theorem nodup_tags (hnames : p.repository.HasTagNames) : (p.tags.map (·.name)).Nodup :=
  Repository.nodup_tagsIn hnames.distinct _

/-- A tag stands at one place of the list of tags only. -/
theorem eq_of_split (hnames : p.repository.HasTagNames) {earlier later : List TagInfo}
    (hsplit : p.tags = before ++ tag :: after) (hother : p.tags = earlier ++ tag :: later) :
    before = earlier ∧ after = later := by
  have hnodup : (before ++ tag :: after).Nodup := hsplit ▸ .of_map _ (nodup_tags hnames)
  have hmem := (List.nodup_cons.1 (List.nodup_middle.1 hnodup)).1
  have hsame := (List.append_cons_inj_of_notMem (fun h => hmem (List.mem_append_left _ h))
    fun h => hmem (List.mem_append_right _ h)).1 (hsplit.symm.trans hother)
  exact ⟨hsame.1, hsame.2.2⟩

/-- The tag before another is the one at the place before it. -/
theorem previousTag_of_split (hnames : p.repository.HasTagNames)
    (hsplit : p.tags = before ++ tag :: after) :
    p.previousTag tag.name = .ok before.getLast? :=
  mapError_eq_ok.2 (Repository.previousTag_eq (nodup_tags hnames) hsplit)

/-- The note for a tag is about the commits since the tag at the place before it. -/
theorem tagNote_of_split (hnames : p.repository.HasTagNames)
    (hsplit : p.tags = before ++ tag :: after) :
    p.tagNote writer tag.name = p.noteSince writer before.getLast? tag := by
  have hfind : p.repository.findTag tag.name p.config.tag.filter = .ok tag :=
    Repository.findTag_eq (nodup_tags hnames) hsplit
  rw [tagNote, previousTag_of_split hnames hsplit, hfind]
  rfl

/-- The place of a tag in the list from its end. -/
theorem getElem?_reverse_of_split (hsplit : p.tags = before ++ tag :: after) :
    p.tags.reverse[after.length]? = some tag ∧
      p.tags.reverse[after.length + 1]? = before.getLast? := by
  have hreverse : p.tags.reverse = after.reverse ++ tag :: before.reverse := by
    rw [hsplit, List.reverse_append, List.reverse_cons, List.append_assoc]
    rfl
  rw [hreverse, List.getElem?_append_right (by simp), List.getElem?_append_right (by simp)]
  simp [List.head?_eq_getElem?.symm]

/-- In a changelog of all tags, each is listed with the tag at the place before it. -/
theorem exists_split_of_mem (hall : choice.all = true) (hany : choice.versionsOnly = false)
    {entry : TagInfo × Option TagInfo} (h : entry ∈ Cli.changelogTags choice p.tags.reverse) :
    ∃ before after, p.tags = before ++ entry.1 :: after ∧ entry.2 = before.getLast? := by
  obtain ⟨i, hi⟩ := List.getElem?_of_mem h
  rw [Cli.changelogTags_getElem? hall hany] at hi
  obtain ⟨tag, htag, rfl⟩ := Option.map_eq_some_iff.1 hi
  obtain ⟨hlt, rfl⟩ := List.getElem?_eq_some_iff.1 htag
  refine ⟨(p.tags.reverse.drop (i + 1)).reverse, (p.tags.reverse.take i).reverse, ?_, ?_⟩
  · rw [← List.reverse_inj, List.reverse_append, List.reverse_cons, List.reverse_reverse,
      List.reverse_reverse, List.append_assoc, List.singleton_append,
      ← List.drop_eq_getElem_cons hlt, List.take_append_drop]
  · rw [List.getLast?_reverse, List.head?_drop]

/-! ## The notes of a changelog -/

/-- The note for the next version, if there is to be one and there is something to release. -/
def nextNotes (p : Project) (writer : ReleaseWriter) (choice : Cli.ChangelogChoice)
    (now : Instant) : Attempt (List ReleaseNote) :=
  if choice.withNext then do
    let next ← p.nextVersion writer
    return if next.decision.updated then [nextNote writer next now] else []
  else return []

/-- The note for the next version can be written if that version is known. -/
theorem exists_nextNotes_iff {now : Instant} :
    (∃ first, p.nextNotes writer choice now = .ok first) ↔
    (choice.withNext = true → ∃ next, p.nextVersion writer = .ok next) := by
  rw [nextNotes]
  cases choice.withNext with
  | false => exact ⟨fun _ => nofun, fun _ => ⟨[], rfl⟩⟩
  | true =>
    constructor
    · rintro ⟨first, hfirst⟩ -
      obtain ⟨next, hnext, -⟩ := bind_eq_ok.1 hfirst
      exact ⟨next, hnext⟩
    · intro h
      obtain ⟨next, hnext⟩ := h rfl
      exact ⟨_, bind_eq_ok.2 ⟨next, hnext, rfl⟩⟩

/-- After the note for the next version, a changelog of all tags is made of the notes for the tags
from the last one back. -/
theorem changelogNotes_eq (hnames : p.repository.HasTagNames) (hwriter : p.writer = .ok writer)
    (hall : choice.all = true) (hany : choice.versionsOnly = false) (now : Instant) :
    Cli.changelogNotes p choice now = (do
      let first ← p.nextNotes writer choice now
      let notes ← p.tags.reverse.mapM fun tag => p.tagNote writer tag.name
      return first ++ notes) := by
  have htags :
      (Cli.changelogTags choice p.tags.reverse).mapM
          (fun entry => p.noteSince writer entry.2 entry.1) =
        p.tags.reverse.mapM fun tag => p.tagNote writer tag.name := by
    conv_rhs => rw [← Cli.map_fst_changelogTags hall hany p.tags.reverse, List.mapM_map]
    refine mapM_congr fun entry hentry => ?_
    obtain ⟨before, after, hsplit, hprevious⟩ := exists_split_of_mem hall hany hentry
    rw [Function.comp_apply, tagNote_of_split hnames hsplit, ← hprevious]
  rw [Cli.changelogNotes, hwriter, ← htags, nextNotes]
  cases choice.withNext with
  | false => rfl
  | true => exact (bind_assoc (p.nextVersion writer) _ _).symm

/-- A changelog of all tags is written exactly if the next version is known, should it be asked for,
and the note for each tag can be written. -/
theorem changelogNotes_isOk_iff (hnames : p.repository.HasTagNames)
    (hwriter : p.writer = .ok writer) (hall : choice.all = true)
    (hany : choice.versionsOnly = false) (now : Instant) :
    (∃ notes, Cli.changelogNotes p choice now = .ok notes) ↔
      (choice.withNext = true → ∃ next, p.nextVersion writer = .ok next) ∧
        ∀ tag ∈ p.tags, ∃ note, p.tagNote writer tag.name = .ok note := by
  have htags : (∃ notes, (p.tags.reverse.mapM fun tag => p.tagNote writer tag.name) = .ok notes) ↔
      ∀ tag ∈ p.tags, ∃ note, p.tagNote writer tag.name = .ok note := by
    constructor
    · rintro ⟨notes, hnotes⟩ tag htag
      obtain ⟨i, hi⟩ := List.getElem?_of_mem (List.mem_reverse.2 htag)
      obtain ⟨note, -, hnote⟩ := getElem?_of_mapM hnotes hi
      exact ⟨note, hnote⟩
    · intro h
      exact exists_mapM_eq_ok _ fun tag htag => h tag (List.mem_reverse.1 htag)
  rw [changelogNotes_eq hnames hwriter hall hany]
  constructor
  · rintro ⟨notes, hnotes⟩
    obtain ⟨first, hfirst, hrest⟩ := bind_eq_ok.1 hnotes
    obtain ⟨older, holder, -⟩ := bind_eq_ok.1 hrest
    exact ⟨exists_nextNotes_iff.1 ⟨first, hfirst⟩, htags.1 ⟨older, holder⟩⟩
  · rintro ⟨h, h'⟩
    obtain ⟨first, hfirst⟩ := exists_nextNotes_iff.2 h
    obtain ⟨older, holder⟩ := htags.2 h'
    exact ⟨_, bind_eq_ok.2 ⟨first, hfirst, bind_eq_ok.2 ⟨older, holder, rfl⟩⟩⟩

/-- From its end, a changelog of all tags has the note for a tag where the list of tags has the
tag. -/
theorem getElem?_of_changelogNotes (hnames : p.repository.HasTagNames)
    (hwriter : p.writer = .ok writer) (hall : choice.all = true)
    (hany : choice.versionsOnly = false) (hsplit : p.tags = before ++ tag :: after) {now : Instant}
    {notes : List ReleaseNote} (h : Cli.changelogNotes p choice now = .ok notes) :
    ∃ note, notes.reverse[before.length]? = some note ∧ p.tagNote writer tag.name = .ok note := by
  rw [changelogNotes_eq hnames hwriter hall hany] at h
  obtain ⟨first, -, h⟩ := bind_eq_ok.1 h
  obtain ⟨older, holder, hret⟩ := bind_eq_ok.1 h
  cases hret
  have holdest : p.tags.mapM (fun tag => p.tagNote writer tag.name) = .ok older.reverse := by
    refine mapM_eq_ok.2 (List.forall₂_reverse_iff.1 ?_)
    rw [List.reverse_reverse]
    exact mapM_eq_ok.1 holder
  have hplace : p.tags[before.length]? = some tag := by
    rw [hsplit, List.getElem?_append_right (Nat.le_refl _), Nat.sub_self]
    rfl
  obtain ⟨note, hnote, hof⟩ := getElem?_of_mapM holdest hplace
  refine ⟨note, ?_, hof⟩
  rw [List.reverse_append, List.getElem?_append_left (List.getElem?_eq_some_iff.1 hnote).1, hnote]

/-- A changelog of all tags fails as the note for a tag does, if what is written before that can be
written. -/
theorem changelogNotes_eq_error (hnames : p.repository.HasTagNames)
    (hwriter : p.writer = .ok writer) (hall : choice.all = true)
    (hany : choice.versionsOnly = false) (hsplit : p.tags = before ++ tag :: after)
    (hnext : choice.withNext = true → ∃ next, p.nextVersion writer = .ok next)
    (hlater : ∀ later ∈ after, ∃ note, p.tagNote writer later.name = .ok note) {f : Failure}
    (hf : p.tagNote writer tag.name = .error f) (now : Instant) :
    Cli.changelogNotes p choice now = .error f := by
  obtain ⟨first, hfirst⟩ : ∃ first, p.nextNotes writer choice now = .ok first :=
    exists_nextNotes_iff.2 hnext
  obtain ⟨newer, hnewer⟩ := exists_mapM_eq_ok after.reverse fun later hmem =>
    hlater later (List.mem_reverse.1 hmem)
  rw [changelogNotes_eq hnames hwriter hall hany, hfirst, hsplit, List.reverse_append,
    List.reverse_cons, List.append_assoc, List.mapM_append, hnewer, List.singleton_append,
    List.mapM_cons, hf]
  rfl

/-- Where the note for a tag cannot be written, neither can a changelog of all tags; it fails as the
note does if what is written before that note can be written. -/
theorem writeChangelog_of_tagNote (hnames : p.repository.HasTagNames)
    (hwriter : p.writer = .ok writer) (hall : choice.all = true)
    (hany : choice.versionsOnly = false) (hsplit : p.tags = before ++ tag :: after) {f : Failure}
    (hf : p.tagNote writer tag.name = .error f) (settings : Cli.Settings) (output : Option String)
    (now : Instant) :
    (∃ g, Cli.writeChangelog settings p choice output now = .error g) ∧
      ((choice.withNext = true → ∃ next, p.nextVersion writer = .ok next) →
        (∀ later ∈ after, ∃ note, p.tagNote writer later.name = .ok note) →
        Cli.writeChangelog settings p choice output now = .error f) := by
  constructor
  · cases hnotes : Cli.changelogNotes p choice now with
    | error g => exact ⟨g, bind_eq_error.2 (.inl hnotes)⟩
    | ok notes =>
      obtain ⟨note, -, hof⟩ := getElem?_of_changelogNotes hnames hwriter hall hany hsplit hnotes
      exact absurd (hof.symm.trans hf) nofun
  · intro hnext hlater
    exact bind_eq_error.2
      (.inl (changelogNotes_eq_error hnames hwriter hall hany hsplit hnext hlater hf now))

/-! ## The commits of a tag -/

/-- The log of a range fails as the history of its commits does. -/
theorem log_eq_error {range : LogRange} {f : Failure} :
    p.log range = .error f ↔ ∃ e, p.repository.commitsIn range = .error e ∧
      f = { cause := .history e } := by
  constructor
  · intro h
    obtain ⟨e, he, rfl⟩ := error_of_mapError h
    rcases bind_eq_error.1 he with hcommits | ⟨_, -, hret⟩
    · exact ⟨e, hcommits, rfl⟩
    · cases hret
  · rintro ⟨e, he, rfl⟩
    have hlog : p.repository.log range = .error e := bind_eq_error.2 (.inl he)
    rw [log, hlog]
    rfl

/-- The log since the tag before a tag can be shown, unless a commit is checked out and one of the
two tags leads to no commit. -/
theorem logSince_eq_error (hnames : p.repository.HasTagNames)
    (hsplit : p.tags = before ++ tag :: after) {f : Failure} :
    p.logSince before.getLast? (some tag.name) = .error f ↔
      f = { cause := .history .refused } ∧ p.repository.hasCommits = true ∧
        ∃ t, (t = tag ∨ t ∈ before.getLast?) ∧ p.repository.resolve t.name = .error .refused := by
  have htag : tag ∈ p.tags := hsplit ▸ List.mem_append_right _ List.mem_cons_self
  have hprevious : ∀ t ∈ before.getLast?, t ∈ p.tags := fun t ht =>
    hsplit ▸ List.mem_append_left _ (List.mem_of_getLast? ht)
  rw [logSince, log_eq_error]
  cases hhead : p.repository.hasCommits with
  | false =>
    rw [Repository.commitsIn_of_not_hasCommits hhead]
    exact ⟨nofun, nofun⟩
  | true =>
    have hrefused {t : TagInfo} (ht : t ∈ p.tags) {e : HistoryError}
        (he : p.repository.resolve t.name = .error e) : e = .refused := by
      obtain ⟨entry, hentry, hname⟩ := mem_tags ht
      exact hnames.resolve_eq_error hhead hentry (hname ▸ he)
    have hstart : ∀ s ∈ before.getLast?.map (·.name), s ≠ "" := by
      intro s hs
      obtain ⟨t, ht, rfl⟩ := Option.map_eq_some_iff.1 hs
      exact ne_empty_of_mem_tags hnames (hprevious t ht)
    have hstop : ∀ s ∈ some tag.name, s ≠ "" := fun s hs =>
      Option.mem_some.1 hs ▸ ne_empty_of_mem_tags hnames htag
    rw [Repository.commitsIn_tags_eq hhead hstart hstop]
    constructor
    · rintro ⟨e, he, rfl⟩
      rcases Repository.logOfRevisions_eq_error.1 he with he | ⟨-, s, hs, he⟩
      · obtain rfl := hrefused htag he
        exact ⟨rfl, rfl, tag, .inl rfl, he⟩
      · obtain ⟨t, ht, rfl⟩ := Option.map_eq_some_iff.1 hs
        obtain rfl := hrefused (hprevious t ht) he
        exact ⟨rfl, rfl, t, .inr ht, he⟩
    · rintro ⟨rfl, -, t, ht, he⟩
      refine ⟨.refused, Repository.logOfRevisions_eq_error.2 ?_, rfl⟩
      rw [Option.getD_some]
      -- the end is resolved first, so the tag before only matters where that leads to a commit
      cases hlast : p.repository.resolve tag.name with
      | error e => exact .inl (congrArg Except.error (hrefused htag hlast))
      | ok last =>
        rcases ht with rfl | ht
        · exact absurd (hlast.symm.trans he) nofun
        · exact .inr ⟨⟨last, rfl⟩, t.name, Option.mem_map_of_mem _ ht, he⟩

/-- The commits that are listed for a tag are those since the tag at the place before it. -/
theorem range_ofTag (hnames : p.repository.HasTagNames) (hsplit : p.tags = before ++ tag :: after) :
    (Cli.LogChoice.ofTag tag.name).range p =
      .ok (.of .tag (before.getLast?.map (·.name)) (some tag.name)) := by
  rw [Cli.LogChoice.range, previousTag_of_split hnames hsplit]
  rfl

/-- The note for a tag is written from the log since the tag before it. -/
theorem tagNote_eq (writer : ReleaseWriter) (hnames : p.repository.HasTagNames)
    (hsplit : p.tags = before ++ tag :: after) {log : List RawCommit}
    (hlog : p.logSince before.getLast? (some tag.name) = .ok log) :
    p.tagNote writer tag.name =
      .message (writer.note (Version.parse tag.name).toOption tag.name tag.date log) := by
  rw [tagNote_of_split hnames hsplit, noteSince, hlog]
  rfl

/-- The note for a tag fails as its log does. -/
theorem tagNote_eq_error (writer : ReleaseWriter) (hnames : p.repository.HasTagNames)
    (hsplit : p.tags = before ++ tag :: after) {f : Failure}
    (hlog : p.logSince before.getLast? (some tag.name) = .error f) :
    p.tagNote writer tag.name =
      .error (f.within ("error getting git log from tag: " ++ tag.name)) := by
  rw [tagNote_of_split hnames hsplit, noteSince, hlog]
  rfl

/-- Where the note for a tag fails, it is not written. -/
theorem writeReleaseNote_eq_error (hwriter : p.writer = .ok writer) {f : Failure}
    (hf : p.tagNote writer tag.name = .error f) (settings : Cli.Settings) (output : Option String)
    (now : Instant) : Cli.writeReleaseNote settings p (some tag.name) output now = .error f :=
  bind_eq_error.2 (.inr ⟨writer, hwriter, bind_eq_error.2 (.inl hf)⟩)

/-- The commits that are listed for a tag are those of the log since the tag before it. -/
theorem listCommits_eq (hnames : p.repository.HasTagNames) (hwriter : p.writer = .ok writer)
    (hsplit : p.tags = before ++ tag :: after) {log : List RawCommit}
    (hlog : p.logSince before.getLast? (some tag.name) = .ok log) :
    Cli.listCommits p (.ofTag tag.name) = (do
      let commits ← Attempt.message (writer.convention.readLog log)
      return {
        text := .join (commits.map fun c => Json.write .compact c.toDocument ++ "\n") }) := by
  have hrange : p.log (.of .tag (before.getLast?.map (·.name)) (some tag.name)) = .ok log := hlog
  simp only [Cli.listCommits, hwriter, range_ofTag hnames hsplit, hrange, bind, Except.bind,
    Attempt.within, Except.mapError]

/-- The list of the commits of a tag fails as the log since the tag before it does. -/
theorem listCommits_eq_error (hnames : p.repository.HasTagNames) (hwriter : p.writer = .ok writer)
    (hsplit : p.tags = before ++ tag :: after) {f : Failure}
    (hlog : p.logSince before.getLast? (some tag.name) = .error f) :
    Cli.listCommits p (.ofTag tag.name) = .error (f.within "error getting git log") := by
  have hrange : p.log (.of .tag (before.getLast?.map (·.name)) (some tag.name)) = .error f := hlog
  simp only [Cli.listCommits, hwriter, range_ofTag hnames hsplit, hrange, bind, Except.bind,
    Attempt.within, Except.mapError]

/-- The note for a tag, the same note in a changelog of all tags, and the list of the commits of the
tag. They take the same tag before it. Their log fails exactly if a commit is checked out and the
tag or the one before it leads to no commit. If it can be shown and its messages can be read, the
note is written from the commits that are listed, and where the changelog is written, that note
stands in it where the tag stands in the list of tags. If the log fails, or one of its messages
cannot be read, all three fail: the note and the list with the error of the log or of that message,
and so does the changelog if it comes to that tag. -/
theorem tagCommands_agree (hnames : p.repository.HasTagNames) (htag : tag ∈ p.tags)
    (hall : choice.all = true) (hany : choice.versionsOnly = false) (settings : Cli.Settings)
    (output : Option String) (now : Instant) :
    (∀ f, p.writer = .error f →
      Cli.writeReleaseNote settings p (some tag.name) output now = .error f ∧
      Cli.listCommits p (.ofTag tag.name) = .error f ∧
      Cli.writeChangelog settings p choice output now = .error f) ∧
    ∃ before after, p.tags = before ++ tag :: after ∧
      p.previousTag tag.name = .ok before.getLast? ∧
      (Cli.LogChoice.ofTag tag.name).range p =
        .ok (.of .tag (before.getLast?.map (·.name)) (some tag.name)) ∧
      (Cli.changelogTags choice p.tags.reverse)[after.length]? = some (tag, before.getLast?) ∧
      (∀ f, p.logSince before.getLast? (some tag.name) = .error f ↔
        f = { cause := .history .refused } ∧ p.repository.hasCommits = true ∧
          ∃ t, (t = tag ∨ t ∈ before.getLast?) ∧ p.repository.resolve t.name = .error .refused) ∧
      ∀ writer, p.writer = .ok writer →
        (∀ log commits, p.logSince before.getLast? (some tag.name) = .ok log →
          writer.convention.readLog log = .ok commits → ∃ note,
          note = writer.outline.note (Version.parse tag.name).toOption tag.name tag.date commits ∧
          Cli.writeReleaseNote settings p (some tag.name) output now =
            .ok (.document (Cli.noteText settings note) output) ∧
          Cli.listCommits p (.ofTag tag.name) =
            .ok { text := .join (commits.map fun c => Json.write .compact c.toDocument ++ "\n") } ∧
          ∀ notes, Cli.changelogNotes p choice now = .ok notes →
            notes.reverse[before.length]? = some note) ∧
        (∀ log e, p.logSince before.getLast? (some tag.name) = .ok log →
          writer.convention.readLog log = .error e →
          Cli.writeReleaseNote settings p (some tag.name) output now =
            .error { cause := .message e } ∧
          Cli.listCommits p (.ofTag tag.name) = .error { cause := .message e } ∧
          (∃ f, Cli.writeChangelog settings p choice output now = .error f) ∧
          ((choice.withNext = true → ∃ next, p.nextVersion writer = .ok next) →
            (∀ later ∈ after, ∃ note, p.tagNote writer later.name = .ok note) →
            Cli.writeChangelog settings p choice output now = .error { cause := .message e })) ∧
        (∀ f, p.logSince before.getLast? (some tag.name) = .error f →
          Cli.writeReleaseNote settings p (some tag.name) output now =
            .error (f.within ("error getting git log from tag: " ++ tag.name)) ∧
          Cli.listCommits p (.ofTag tag.name) = .error (f.within "error getting git log") ∧
          (∃ g, Cli.writeChangelog settings p choice output now = .error g) ∧
          ((choice.withNext = true → ∃ next, p.nextVersion writer = .ok next) →
            (∀ later ∈ after, ∃ note, p.tagNote writer later.name = .ok note) →
            Cli.writeChangelog settings p choice output now =
              .error (f.within ("error getting git log from tag: " ++ tag.name)))) ∧
        ((∃ notes, Cli.changelogNotes p choice now = .ok notes) ↔
          (choice.withNext = true → ∃ next, p.nextVersion writer = .ok next) ∧
            ∀ other ∈ p.tags, ∃ note, p.tagNote writer other.name = .ok note) := by
  refine ⟨fun f hf => ?_, ?_⟩
  · rw [Cli.writeReleaseNote, Cli.listCommits, Cli.writeChangelog, Cli.changelogNotes, hf]
    exact ⟨rfl, rfl, rfl⟩
  · obtain ⟨before, after, hsplit⟩ := List.append_of_mem htag
    have hprevious := previousTag_of_split hnames hsplit
    have hrange := range_ofTag hnames hsplit
    obtain ⟨hplace, hnext⟩ := getElem?_reverse_of_split hsplit
    refine ⟨before, after, hsplit, hprevious, hrange, ?_, fun f => logSince_eq_error hnames hsplit,
      fun writer hwriter => ⟨?_, ?_, ?_, ?_⟩⟩
    · rw [Cli.changelogTags_getElem? hall hany, hplace, hnext]
      rfl
    · intro log commits hlog hread
      have hnote := tagNote_eq writer hnames hsplit hlog
      rw [ReleaseWriter.note, hread] at hnote
      refine ⟨_, rfl, ?_, ?_, fun notes hnotes => ?_⟩
      · exact bind_eq_ok.2 ⟨writer, hwriter, bind_eq_ok.2 ⟨_, hnote, rfl⟩⟩
      · rw [listCommits_eq hnames hwriter hsplit hlog, hread]
        rfl
      · obtain ⟨note, hmem, hof⟩ :=
          getElem?_of_changelogNotes hnames hwriter hall hany hsplit hnotes
        rw [hmem, Except.ok.inj (hof.symm.trans hnote)]
    · intro log e hlog hread
      have hnote := tagNote_eq writer hnames hsplit hlog
      rw [ReleaseWriter.note, hread] at hnote
      refine ⟨writeReleaseNote_eq_error hwriter hnote settings output now, ?_,
        writeChangelog_of_tagNote hnames hwriter hall hany hsplit hnote settings output now⟩
      rw [listCommits_eq hnames hwriter hsplit hlog, hread]
      rfl
    · intro f hlog
      have hnote := tagNote_eq_error writer hnames hsplit hlog
      exact ⟨writeReleaseNote_eq_error hwriter hnote settings output now,
        listCommits_eq_error hnames hwriter hsplit hlog,
        writeChangelog_of_tagNote hnames hwriter hall hany hsplit hnote settings output now⟩
    · exact changelogNotes_isOk_iff hnames hwriter hall hany now

/-- Two commits with a tag each, and a tag on files. It has no date, so it is listed first. -/
def releasesAndFiles : Project where
  config := {}
  repository :=
    { twoReleases.repository with tags := ("docs", .files) :: twoReleases.repository.tags }

/-- The tags have names that tags can have. -/
theorem hasTagNames_releasesAndFiles : releasesAndFiles.repository.HasTagNames where
  names := by decide
  distinct := by decide

/-- The tag on files is the one before the first release. -/
theorem tags_releasesAndFiles : releasesAndFiles.tags =
    [⟨"docs", none⟩, ⟨"1.0.0", some ⟨1700000001⟩⟩, ⟨"1.1.0", some ⟨1700000003⟩⟩] :=
  List.mergeSort_of_pairwise (by decide)

/-- The note for the last of two releases is written from its one commit. The first one comes after
a tag on files, so its log fails; and so do its note, the list of its commits and the changelog,
which comes to it after the last one. -/
theorem tagCommands_releasesAndFiles :
    ∃ writer entries note, releasesAndFiles.writer = .ok writer ∧
      writer.convention.readLog [secondCommit.raw] = .ok entries ∧
      releasesAndFiles.previousTag "1.1.0" = .ok (some ⟨"1.0.0", some ⟨1700000001⟩⟩) ∧
      note = writer.outline.note (Version.parse "1.1.0").toOption "1.1.0"
        (some ⟨1700000003⟩) entries ∧
      Cli.writeReleaseNote {} releasesAndFiles (some "1.1.0") none ⟨0⟩ =
        .ok (.document (Cli.noteText {} note) none) ∧
      Cli.listCommits releasesAndFiles (.ofTag "1.1.0") =
        .ok { text := .join (entries.map fun c => Json.write .compact c.toDocument ++ "\n") } ∧
      releasesAndFiles.previousTag "1.0.0" = .ok (some ⟨"docs", none⟩) ∧
      Cli.writeReleaseNote {} releasesAndFiles (some "1.0.0") none ⟨0⟩ =
        .error ⟨["error getting git log from tag: 1.0.0"], .history .refused⟩ ∧
      Cli.listCommits releasesAndFiles (.ofTag "1.0.0") =
        .error ⟨["error getting git log"], .history .refused⟩ ∧
      Cli.writeChangelog {} releasesAndFiles { all := true } none ⟨0⟩ =
        .error ⟨["error getting git log from tag: 1.0.0"], .history .refused⟩ := by
  have htags := tags_releasesAndFiles
  have hlast : ⟨"1.1.0", some ⟨1700000003⟩⟩ ∈ releasesAndFiles.tags := by
    rw [htags]
    exact .tail _ (.tail _ (.head _))
  have hfirst : ⟨"1.0.0", some ⟨1700000001⟩⟩ ∈ releasesAndFiles.tags := by
    rw [htags]
    exact .tail _ (.head _)
  obtain ⟨-, before, after, hsplit, hprevious, -, -, -, hcommands⟩ :=
    @tagCommands_agree releasesAndFiles _ { all := true } hasTagNames_releasesAndFiles hlast rfl
      rfl {} none ⟨0⟩
  obtain ⟨-, earlier, later, hsplit', hprevious', -, -, hlog', hcommands'⟩ :=
    @tagCommands_agree releasesAndFiles _ { all := true } hasTagNames_releasesAndFiles hfirst rfl
      rfl {} none ⟨0⟩
  have hends : releasesAndFiles.tags = [⟨"docs", none⟩, ⟨"1.0.0", _⟩] ++ ⟨"1.1.0", _⟩ :: [] := htags
  have hbegins : releasesAndFiles.tags = [⟨"docs", none⟩] ++ ⟨"1.0.0", _⟩ :: [⟨"1.1.0", _⟩] := htags
  obtain ⟨rfl, rfl⟩ := eq_of_split hasTagNames_releasesAndFiles hends hsplit
  obtain ⟨rfl, rfl⟩ := eq_of_split hasTagNames_releasesAndFiles hbegins hsplit'
  have hlog : releasesAndFiles.logSince (some ⟨"1.0.0", some ⟨1700000001⟩⟩) (some "1.1.0") =
      .ok [secondCommit.raw] := rfl
  have hfails : releasesAndFiles.logSince (some ⟨"docs", none⟩) (some "1.0.0") =
      .error { cause := .history .refused } :=
    (hlog' _).2 ⟨rfl, rfl, ⟨"docs", none⟩, .inr rfl, rfl⟩
  obtain ⟨writer, hwriter, htried⟩ := exists_of_any (x := releasesAndFiles.writer)
    (p := fun writer => (writer.convention.readLog [secondCommit.raw]).toOption.any fun _ => true)
      (by decide +kernel)
  obtain ⟨entries, hread, -⟩ := exists_of_any htried
  obtain ⟨hreadable, -, -, -⟩ := hcommands writer hwriter
  obtain ⟨note, hnote, hwritten, hlisted, -⟩ := hreadable _ entries hlog hread
  obtain ⟨-, -, hfailing, -⟩ := hcommands' writer hwriter
  obtain ⟨hunwritten, hunlisted, -, hchangelog⟩ := hfailing _ hfails
  refine ⟨writer, entries, note, hwriter, hread, hprevious, hnote, hwritten, hlisted,
    hprevious', hunwritten, hunlisted, hchangelog nofun (List.forall_mem_singleton.2 ⟨note, ?_⟩)⟩
  rw [tagNote_eq writer hasTagNames_releasesAndFiles hends hlog, ReleaseWriter.note, hread, hnote]
  rfl

end Project

end ConventionalRelease
