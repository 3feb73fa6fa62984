import ConventionalRelease.Proofs.Cli.MakeTag
import ConventionalRelease.Proofs.History.Range
import ConventionalRelease.Proofs.History.Stretches
import ConventionalRelease.Proofs.History.TagOrder
import ConventionalRelease.Proofs.Release.Bump
import ConventionalRelease.Proofs.Release.Plan
import ConventionalRelease.Proofs.Version.TagName

/-!
# The release cycle

Under the default configuration commits are made and, from time to time, the next version is tagged
(`Repository.Reachable`). The tags are then the releases so far (`Repository.IsReleased`): each is
named by a plain version, which is greater than those before, and it is later than those before. So
the last tag is that of the last release, and a further release follows it
(`Repository.IsReleased.makeTag`). `Repository.Reachable.release_cycle` says what this means for
every run of the command.
-/

namespace ConventionalRelease

open Repository (between)

/-- A release: a version from 0.1.0 on that is neither a pre-release nor marked with a build, the
time at which it was tagged, and the commit that was tagged. -/
structure Release where
  version : Version
  isPlain : version.isPlain = true
  isStarted : ¬ (version.major = 0 ∧ version.minor = 0)
  time : Int
  descent : Descent

namespace Release

variable {x y : Release}

/-- The name of the tag. -/
def name (x : Release) : String :=
  String.ofList x.version.coreText

/-- The tag. -/
def tag (x : Release) : String × Tagged :=
  (x.name, .object (some x.time) (.commit x.descent))

/-- The tag with its time. -/
def info (x : Release) : TagInfo :=
  Repository.info x.tag

/-- Whether a release is of a greater version than another, and later. -/
def Follows (x y : Release) : Prop :=
  y.version.NumbersLT x.version ∧ TagInfo.dateLE x.info.date y.info.date = false

/-- The name of a release is read as its version. -/
theorem parse_name (x : Release) : Version.parse x.name = .ok x.version :=
  Version.parse_coreText x.isPlain

/-- Releases of different versions have different names. -/
theorem name_ne (h : y.version.NumbersLT x.version) : y.name ≠ x.name := by
  intro hname
  have htext : y.version.coreText = x.version.coreText := String.ofList_injective hname
  have hversion := Version.eq_of_coreText_eq y.isPlain x.isPlain htext
  exact Version.NumbersLT.irrefl _ (hversion ▸ h)

/-- A name of a release is made up of letters, digits, dots, hyphens and pluses. -/
theorem mem_name {c : Char} (h : c ∈ x.name.toList) :
    c.isAlphanum ∨ c = '.' ∨ c = '-' ∨ c = '+' := by
  rw [name, String.toList_ofList, ← Version.characters_of_isPlain x.isPlain] at h
  exact Version.mem_characters h

/-- There is a dot in a name of a release. -/
theorem dot_mem_name (x : Release) : '.' ∈ x.name.toList := by
  rw [name, String.toList_ofList, Version.coreText]
  simp

/-- The name of a release is not the hash of a commit, and nothing but tags has it. -/
theorem isFree_name {r : Repository} (h : r.HasHashes) (x : Release) :
    r.IsNoHash x.name ∧ '~' ∉ x.name.toList ∧ r.reference? x.name = none ∧
      r.reference? ("refs/" ++ x.name) = none := by
  have hne : x.name ≠ "HEAD" := fun hname => by
    have hdot := x.dot_mem_name
    rw [hname] at hdot
    exact absurd hdot (by decide)
  have hslash : '/' ∉ x.name.toList := fun hmem => absurd (mem_name hmem) (by decide)
  obtain ⟨hfull, hshort⟩ := Repository.reference?_of_not_mem hslash hne
  refine ⟨h.isNoHash x.dot_mem_name (by decide), ?_, hfull, hshort⟩
  exact fun hmem => absurd (mem_name hmem) (by decide)

/-- The name of a release is not another name of what is checked out. -/
theorem name_ne_at (x : Release) : x.name ≠ "@" := fun hname => by
  have hdot := x.dot_mem_name
  rw [hname] at hdot
  exact absurd hdot (by decide)

/-- The name of a release is not empty. -/
theorem name_ne_empty (x : Release) : x.name ≠ "" := fun hname => by
  have hdot := x.dot_mem_name
  rw [hname] at hdot
  cases hdot

end Release

/-- A repository under the default configuration. -/
def Project.ofRepository (r : Repository) : Project :=
  { config := {}, repository := r }

namespace Repository

/-! ## Releases so far -/

/-- The tags of a repository are its releases, the last one first, each of which follows those
before it; and its commits have hashes. -/
structure IsReleased (r : Repository) (releases : List Release) : Prop where
  tags : r.tags = releases.map Release.tag
  ordered : releases.Pairwise Release.Follows
  hashes : r.HasHashes

variable {r : Repository} {releases : List Release} {x : Release}

/-- The tags are those of the releases. -/
theorem IsReleased.mem_tagsIn (h : r.IsReleased releases) {tag : TagInfo} :
    tag ∈ r.tagsIn "" ↔ ∃ x ∈ releases, x.info = tag := by
  rw [Repository.mem_tagsIn, h.tags]
  constructor
  · rintro ⟨e, he, -, rfl⟩
    obtain ⟨x, hx, rfl⟩ := List.mem_map.1 he
    exact ⟨x, hx, rfl⟩
  · rintro ⟨x, hx, rfl⟩
    exact ⟨x.tag, List.mem_map_of_mem hx, rfl, rfl⟩

/-- The last tag is that of the last release. -/
theorem IsReleased.lastTag? (h : r.IsReleased releases) :
    r.lastTag? "" = releases.head?.map Release.info := by
  cases releases with
  | nil =>
    have hnil : r.tagsIn "" = [] := List.eq_nil_iff_forall_not_mem.2 fun tag htag => by
      obtain ⟨x, hx, -⟩ := h.mem_tagsIn.1 htag
      cases hx
    rw [Repository.lastTag?, hnil]
    rfl
  | cons x older =>
    refine lastTag?_of_latest (h.mem_tagsIn.2 ⟨x, List.mem_cons_self, rfl⟩) fun tag htag => ?_
    obtain ⟨y, hy, rfl⟩ := h.mem_tagsIn.1 htag
    rcases List.mem_cons.1 hy with rfl | hy
    · exact .inl rfl
    · exact .inr (TagInfo.le_eq_false ((List.pairwise_cons.1 h.ordered).1 y hy).2)

/-- The name of the last release leads to its commit. -/
theorem IsReleased.resolve_name (h : r.IsReleased (x :: releases)) :
    r.resolve x.name = .ok x.descent ∧ r.tagged x.name = x.descent.lineage := by
  obtain ⟨hhash, hmark, hfull, hshort⟩ := Release.isFree_name h.hashes x
  have hlookup : r.tags.lookup x.name = some x.tag.2 := by
    rw [h.tags]
    exact List.lookup_cons_self
  refine ⟨resolve_tag hmark x.name_ne_at hhash hfull hshort hlookup rfl, ?_⟩
  rw [tagged, hlookup]
  rfl

/-- The commits that are checked out and not released yet. -/
def unreleased (r : Repository) : Lineage :=
  between r.checkedOut (((r.lastTag? "").map fun tag => r.tagged tag.name).getD [])

/-- The current version is that of the last release. -/
theorem IsReleased.currentVersion (h : r.IsReleased releases) :
    (Project.ofRepository r).currentVersion =
      .ok ⟨releases.head?.map Release.info, (releases.head?.map Release.version).getD .zero⟩ := by
  refine Project.currentVersion_eq_ok.2 ⟨h.lastTag?.symm, ?_⟩
  cases releases with
  | nil => rfl
  | cons x older => exact x.parse_name

/-- The log since the last release shows the commits that are not released yet. -/
theorem IsReleased.logSince (h : r.IsReleased releases) :
    (Project.ofRepository r).logSince (releases.head?.map Release.info) none =
      .ok (r.unreleased.map Commit.raw) := by
  refine Project.logSince_of_commitsIn ?_
  show r.commitsIn _ = _
  rw [unreleased, h.lastTag?]
  cases hhead : r.head? with
  | none =>
    rw [checkedOut, hhead]
    exact commitsIn_of_head?_eq_none hhead _
  | some descent =>
    rw [checkedOut_of_head? hhead]
    have hhas := hasCommits_of_head? hhead
    have hstop : r.resolve ((none : Option String).getD "HEAD") = .ok descent :=
      h.hashes.resolve_head hhead
    have hnone : ∀ s ∈ (none : Option String), s ≠ "" := fun s hs => by cases hs
    cases releases with
    | nil =>
      have hstart : ∀ s ∈ (none : Option String), s ≠ "" ∧ ∃ first, r.resolve s = .ok first := by
        intro s hs
        cases hs
      exact commitsIn_tags hhas hstart hnone hstop
    | cons x older =>
      obtain ⟨hresolve, htagged⟩ := h.resolve_name
      have hstart : ∀ s ∈ some x.name, s ≠ "" ∧ ∃ first, r.resolve s = .ok first := by
        intro s hs
        cases hs
        exact ⟨x.name_ne_empty, x.descent, hresolve⟩
      show r.commitsIn (.of .tag (some x.name) none) =
        .ok (between descent.lineage (r.tagged x.name))
      rw [commitsIn_tags hhas hstart hnone hstop, htagged, Option.map_some, Option.getD_some,
        tip_eq hresolve]

/-- The version of the last release; 0.0.0 before any release. -/
def lastVersion (releases : List Release) : Version :=
  (releases.head?.map Release.version).getD .zero

/-- It is plain. -/
theorem isPlain_lastVersion (releases : List Release) : (lastVersion releases).isPlain = true := by
  cases releases with
  | nil => rfl
  | cons x older => exact x.isPlain

/-- Each release is of a version that is not after that of the last one. -/
theorem IsReleased.numbersLT (h : r.IsReleased releases) {v : Version}
    (hv : (lastVersion releases).NumbersLT v) : ∀ y ∈ releases, y.version.NumbersLT v := by
  intro y hy
  have hordered := h.ordered
  cases releases with
  | nil => cases hy
  | cons x older =>
    rcases List.mem_cons.1 hy with rfl | hy
    · exact hv
    · exact ((List.pairwise_cons.1 hordered).1 y hy).1.trans hv

/-- The next version follows from the commits that are not released yet. -/
theorem IsReleased.nextVersion_eq_ok (h : r.IsReleased releases) {writer : ReleaseWriter}
    {next : NextVersion} :
    (Project.ofRepository r).nextVersion writer = .ok next ↔
      next.current = ⟨releases.head?.map Release.info, lastVersion releases⟩ ∧
      writer.convention.readLog (r.unreleased.map Commit.raw) = .ok next.commits ∧
      (ReleasePolicy.ofConfig {}).decide (some (lastVersion releases)) next.commits =
        .ok next.decision := by
  rw [Project.nextVersion_eq_ok, h.currentVersion]
  constructor
  · rintro ⟨hcurrent, log, hlog, hcommits, hdecision⟩
    have hcurrent := (Except.ok.inj hcurrent).symm
    rw [hcurrent, h.logSince] at hlog
    rw [hcurrent] at hdecision
    exact ⟨hcurrent, Except.ok.inj hlog ▸ hcommits, hdecision⟩
  · rintro ⟨hcurrent, hcommits, hdecision⟩
    rw [hcurrent]
    exact ⟨rfl, _, h.logSince, hcommits, hdecision⟩

/-- The next version cannot be told only because a commit cannot be read, or a number is the
greatest there is. -/
theorem IsReleased.nextVersion_error (h : r.IsReleased releases) {writer : ReleaseWriter}
    {f : Failure} (hf : (Project.ofRepository r).nextVersion writer = .error f) :
    (∃ e, f.cause = .message e) ∨ ∃ text, f.cause = .version (.overflow text) := by
  rcases bind_eq_error.1 hf with hf | ⟨current, hcurrent, hf⟩
  · rw [h.currentVersion] at hf
    cases hf
  rw [h.currentVersion] at hcurrent
  cases hcurrent
  rcases bind_eq_error.1 hf with hf | ⟨log, -, hf⟩
  · obtain ⟨g, hg, -⟩ := Attempt.within_eq_error hf
    rw [h.logSince] at hg
    cases hg
  rcases bind_eq_error.1 hf with hf | ⟨commits, -, hf⟩
  · obtain ⟨e, -, rfl⟩ := error_of_mapError hf
    exact .inl ⟨e, rfl⟩
  rcases bind_eq_error.1 hf with hf | ⟨decision, -, hf⟩
  · obtain ⟨e, he, rfl⟩ := error_of_mapError hf
    exact .inr ⟨_, congrArg Cause.version (ReleasePolicy.overflow_of_decide he)⟩
  · cases hf

/-- A next version is a release, which may be put on any commit at any time, and it is greater than
those before it. -/
theorem IsReleased.exists_release (h : r.IsReleased releases) {writer : ReleaseWriter}
    {next : NextVersion} (hnext : (Project.ofRepository r).nextVersion writer = .ok next)
    (hupdated : next.decision.updated = true) (time : Int) (descent : Descent) :
    ∃ x : Release, (Project.ofRepository r).config.tag.name next.version = x.name ∧ x.time = time ∧
      x.descent = descent ∧ ∀ y ∈ releases, y.version.NumbersLT x.version := by
  obtain ⟨hcurrent, -, hdecide⟩ := h.nextVersion_eq_ok.1 hnext
  have hlevel := ReleasePolicy.aggregate_ne_none_of_decide hdecide hupdated
  obtain ⟨v, hv, hdecision⟩ := ReleasePolicy.decide_some_eq_ok.1 hdecide
  obtain ⟨hlt, hplain, hstarted⟩ :=
    ReleasePolicy.numbersLT_of_nextVersion (isPlain_lastVersion releases) hlevel hv
  have hversion : next.version = v := by
    rw [NextVersion.version, hdecision]
    rfl
  have hname := TagRules.name_default next.version
  exact ⟨⟨v, hplain, hstarted, time, descent⟩, hversion ▸ hname, rfl, rfl, h.numbersLT hlt⟩

/-! ## A further release -/

/-- The repository after the changes that a command asks for. -/
def afterChanges (r : Repository) (changes : List Cli.Change) : Repository :=
  changes.foldl (fun r change => match change with
    | .write _ _ => r
    | .record event => (r.after? event).getD r) r

/-- Making changes in a workspace makes them in its repository. -/
theorem checkout_applyAll {w : Cli.Workspace} (changes : List Cli.Change) :
    (w.applyAll changes).checkout =
      w.checkout.map fun c => { c with repository := c.repository.afterChanges changes } := by
  induction changes generalizing w with
  | nil =>
    show w.checkout = w.checkout.map id
    rw [Option.map_id]
    rfl
  | cons change changes ih =>
    show ((w.apply change).applyAll changes).checkout = _
    rw [ih]
    cases change with
    | write path text => rfl
    | record event =>
      show (w.checkout.map _).map _ = _
      rw [Option.map_map]
      rfl

/-- Whether a time is later than that of every tag. -/
def IsLater (r : Repository) (now : Instant) : Prop :=
  ∀ tag ∈ r.tagsIn "", TagInfo.dateLE (Instant.ofParts? now.seconds 0) tag.date = false

instance (r : Repository) (now : Instant) : Decidable (r.IsLater now) :=
  inferInstanceAs (Decidable (∀ tag ∈ r.tagsIn "", _))

/-- A tag of a release is on what is checked out, and nothing else changes. -/
theorem afterChanges_tag (h : r.HasHashes) (hhead : r.head? = some x.descent) :
    r.afterChanges [.record (.tag x.name x.time "HEAD")] = { r with tags := x.tag :: r.tags } := by
  have hafter : r.after? (.tag x.name x.time "HEAD") = some { r with tags := x.tag :: r.tags } := by
    show (r.revision? "HEAD").bind _ = _
    rw [h.revision?_head hhead]
    rfl
  show (r.after? (.tag x.name x.time "HEAD")).getD r = _
  rw [hafter]
  rfl

/-- A later release of a greater version is the last one. -/
theorem IsReleased.cons (h : r.IsReleased releases)
    (hversion : ∀ y ∈ releases, y.version.NumbersLT x.version) {now : Instant}
    (hlater : r.IsLater now) (htime : x.time = now.seconds) :
    ({ r with tags := x.tag :: r.tags } : Repository).IsReleased (x :: releases) where
  tags := by rw [h.tags]; rfl
  ordered := by
    refine List.pairwise_cons.2 ⟨fun y hy => ⟨hversion y hy, ?_⟩, h.ordered⟩
    have hdate : x.info.date = Instant.ofParts? now.seconds 0 := by
      rw [← htime]
      rfl
    rw [hdate]
    exact hlater y.info (h.mem_tagsIn.2 ⟨y, hy, rfl⟩)
  hashes := h.hashes

/-- After a release the current version is that of the release, and nothing follows it. -/
theorem IsReleased.nextVersion_of_head (h : r.IsReleased (x :: releases))
    (hhead : r.head? = some x.descent) (writer : ReleaseWriter) :
    ∃ next, (Project.ofRepository r).nextVersion writer = .ok next ∧ next.version = x.version ∧
      next.decision.updated = false := by
  have hnone : r.unreleased = [] := by
    rw [unreleased, checkedOut_of_head? hhead, h.lastTag?]
    show between x.descent.lineage (r.tagged x.name) = []
    rw [h.resolve_name.2]
    exact between_self x.descent.lineage
  refine ⟨⟨⟨some x.info, x.version⟩, ⟨some x.version, .none, false⟩, []⟩, ?_, rfl, rfl⟩
  refine h.nextVersion_eq_ok.2 ⟨rfl, ?_, ?_⟩
  · rw [hnone]
    rfl
  · exact ReleasePolicy.decide_some_eq_ok.2 ⟨x.version,
      ReleasePolicy.nextVersion_none x.isStarted, rfl⟩

/-- What a run that tags the next version needs and what it leaves behind. The version is plain,
some commit that is not released yet calls for a release, and each tag that is there names a version
that comes before it. Afterwards it is the current version, it is the next version too with nothing
to be released, and a further run changes nothing. -/
structure Releases (r : Repository) (v : Version) (after : Repository) : Prop where
  plain : v.isPlain = true
  called : ∃ c ∈ r.unreleased, ∃ writer entry, (Project.ofRepository r).writer = .ok writer ∧
    writer.convention.readCommit c.raw = .ok entry ∧
    (ReleasePolicy.ofConfig {}).classify entry.message ≠ .none
  greater : ∀ tag ∈ r.tags, ∃ w, Version.parse tag.1 = .ok w ∧ w.NumbersLT v
  current : ∃ current, (Project.ofRepository after).currentVersion = .ok current ∧
    current.version = v
  next : ∀ writer, ∃ next, (Project.ofRepository after).nextVersion writer = .ok next ∧
    next.version = v ∧ next.decision.updated = false
  again : ∀ settings now, ∃ reply,
    Cli.makeTag settings (.ofRepository after) false now = .ok reply ∧ reply.changes = []

/-- A run that changes something tags the next version, and that is a further release. -/
theorem IsReleased.makeTag (h : r.IsReleased releases) {settings : Cli.Settings} {now : Instant}
    (hlater : r.IsLater now) {reply : Cli.Reply}
    (hreply : Cli.makeTag settings (.ofRepository r) false now = .ok reply) :
    reply.changes = [] ∨ ∃ x : Release, reply.changes = [.record (.tag x.name now.seconds "HEAD")] ∧
      (r.afterChanges reply.changes).IsReleased (x :: releases) ∧
      Releases r x.version (r.afterChanges reply.changes) := by
  obtain ⟨writer, next, hwriter, hnext, ⟨-, hnone⟩ | ⟨hupdated, ⟨info, hnew⟩, hchanges⟩⟩ :=
    Cli.makeTag_spec hreply
  · exact .inl hnone
  obtain ⟨-, hcan⟩ := Repository.newTag_eq_ok hnew
  obtain ⟨descent, hhead⟩ : ∃ descent, r.head? = some descent := by
    simp only [canTag, Bool.and_eq_true] at hcan
    exact Option.isSome_iff_exists.1 hcan.1.1.1
  obtain ⟨x, hname, htime, rfl, hgreater⟩ := h.exists_release hnext hupdated now.seconds descent
  rw [hname] at hchanges
  refine .inr ⟨x, hchanges, ?_⟩
  rw [hchanges, ← htime, afterChanges_tag h.hashes hhead]
  have hafter := h.cons hgreater hlater htime
  have hhere : ({ r with tags := x.tag :: r.tags } : Repository).head? = some x.descent := hhead
  refine ⟨hafter, x.isPlain, ?_, ?_, ⟨_, hafter.currentVersion, rfl⟩, ?_, ?_⟩
  · obtain ⟨-, hread, hdecide⟩ := h.nextVersion_eq_ok.1 hnext
    obtain ⟨entry, hentry, hcalls⟩ :=
      ReleasePolicy.exists_of_aggregate_ne_none
        (ReleasePolicy.aggregate_ne_none_of_decide hdecide hupdated)
    obtain ⟨raw, hraw, hread⟩ := exists_of_mem_mapM hread hentry
    obtain ⟨c, hc, rfl⟩ := List.mem_map.1 hraw
    exact ⟨c, hc, writer, entry, hwriter, hread, hcalls⟩
  · rw [h.tags]
    intro tag htag
    obtain ⟨y, hy, rfl⟩ := List.mem_map.1 htag
    exact ⟨y.version, y.parse_name, hgreater y hy⟩
  · exact fun writer => hafter.nextVersion_of_head hhere writer
  · intro settings now
    obtain ⟨next, hnext, -, hupdated⟩ := hafter.nextVersion_of_head hhere writer
    exact Cli.makeTag_of_not_updated hwriter hnext hupdated

/-- A run never fails because its tag is there, or because the name of a tag is no version. -/
theorem IsReleased.makeTag_error (h : r.IsReleased releases) {settings : Cli.Settings}
    {now : Instant} {f : Failure}
    (hf : Cli.makeTag settings (.ofRepository r) false now = .error f) :
    (∃ e, f.cause = .config e) ∨ (∃ e, f.cause = .message e) ∨
      (∃ text, f.cause = .version (.overflow text)) ∨ f.cause = .history .refused := by
  rcases Cli.makeTag_error hf with hf | ⟨writer, -, hf | ⟨next, e, hnext, hupdated, hnew, hcause⟩⟩
  · obtain ⟨e, -, rfl⟩ := error_of_mapError hf
    exact .inl ⟨e, rfl⟩
  · rcases h.nextVersion_error hf with hf | hf
    · exact .inr (.inl hf)
    · exact .inr (.inr (.inl hf))
  · -- only the name and the version count here, so the tag may be on any commit
    obtain ⟨x, hname, -, -, hgreater⟩ := h.exists_release hnext hupdated 0 default
    rw [hname] at hnew
    rcases Repository.newTag_eq_error hnew with hsome | rfl
    · exfalso
      obtain ⟨e, he, hsame⟩ := List.lookup_isSome_iff.1 hsome
      have he : e ∈ r.tags := he
      rw [h.tags] at he
      obtain ⟨y, hy, rfl⟩ := List.mem_map.1 he
      exact Release.name_ne (hgreater y hy) (eq_of_beq hsame).symm
    · exact .inr (.inr (.inr hcause))

/-! ## Runs -/

/-- What commits on what is checked out, and runs that tag the next version later than every tag,
lead to in any order. -/
inductive Reachable (start : Repository) : Repository → Prop
  | start : Reachable start start
  | commit {r : Repository} {c : Commit} (h : Reachable start r)
      (hash : isHexadecimal c.hash = true) :
    Reachable start (r.afterCommit c)
  | tag {r : Repository} {settings : Cli.Settings} {now : Instant} {reply : Cli.Reply}
    (h : Reachable start r) (later : r.IsLater now)
    (run : Cli.makeTag settings (.ofRepository r) false now = .ok reply) :
    Reachable start (r.afterChanges reply.changes)

/-- A commit is no release. -/
theorem IsReleased.afterCommit (h : r.IsReleased releases) {c : Commit}
    (hash : isHexadecimal c.hash = true) :
    (r.afterCommit c).IsReleased releases := by
  have hhashes : ∀ descent ∈ (⟨c, r.checkedOut⟩ : Descent) :: r.commits,
      isHexadecimal descent.newest.hash = true :=
    List.forall_mem_cons.2 ⟨hash, h.hashes⟩
  unfold Repository.afterCommit
  dsimp only
  split
  · exact ⟨h.tags, h.ordered, hhashes⟩
  · exact ⟨h.tags, h.ordered, hhashes⟩

/-- All that is reached from a repository without tags has releases for its tags. -/
theorem Reachable.isReleased {start : Repository} (htags : start.tags = [])
    (hhashes : start.HasHashes) (h : Reachable start r) : ∃ releases, r.IsReleased releases := by
  induction h with
  | start => exact ⟨[], htags, .nil, hhashes⟩
  | commit _ hash ih =>
    obtain ⟨releases, hreleased⟩ := ih
    exact ⟨releases, hreleased.afterCommit hash⟩
  | tag _ later run ih =>
    obtain ⟨releases, hreleased⟩ := ih
    rcases hreleased.makeTag later run with hnone | ⟨x, -, hreleased, -⟩
    · rw [hnone]
      exact ⟨releases, hreleased⟩
    · exact ⟨x :: releases, hreleased⟩

/-- Whatever was committed and released in a repository without tags, a further run that is later
than every tag fails neither because its tag is there nor because the name of a tag is no version.
It changes nothing, or it tags a version that some commit calls for and that is greater than the
version of every tag; this version is then the current and the next one, and a further run changes
nothing. -/
theorem Reachable.release_cycle {start : Repository} (htags : start.tags = [])
    (hhashes : start.HasHashes) (h : Reachable start r) {settings : Cli.Settings} {now : Instant}
    (hlater : r.IsLater now) :
    (∀ f, Cli.makeTag settings (.ofRepository r) false now = .error f →
      (∀ name, f.cause ≠ .history (.tagExists name)) ∧
        ∀ text fault, f.cause ≠ .version (.malformed text fault)) ∧
      ∀ reply, Cli.makeTag settings (.ofRepository r) false now = .ok reply →
        reply.changes = [] ∨ ∃ v : Version,
          reply.changes = [.record (.tag (String.ofList v.coreText) now.seconds "HEAD")] ∧
          Releases r v (r.afterChanges reply.changes) := by
  obtain ⟨releases, hreleased⟩ := h.isReleased htags hhashes
  constructor
  · intro f hf
    rcases hreleased.makeTag_error hf with ⟨e, he⟩ | ⟨e, he⟩ | ⟨text, he⟩ | he
    · rw [he]
      exact ⟨nofun, nofun⟩
    · rw [he]
      exact ⟨nofun, nofun⟩
    · rw [he]
      exact ⟨nofun, nofun⟩
    · rw [he]
      exact ⟨nofun, nofun⟩
  · intro reply hreply
    rcases hreleased.makeTag hlater hreply with hnone | ⟨x, hchanges, -, hreleases⟩
    · exact .inl hnone
    · exact .inr ⟨x.version, hchanges, hreleases⟩

/-- The changes that come of an attempt. -/
def changes? (x : Attempt Cli.Reply) : Option (List Cli.Change) :=
  match x with
  | .ok reply => some reply.changes
  | .error _ => none

/-- An attempt of which changes come succeeds. -/
theorem exists_of_changes? {x : Attempt Cli.Reply} {changes : List Cli.Change}
    (h : changes? x = some changes) : ∃ reply, x = .ok reply ∧ reply.changes = changes := by
  cases x with
  | error f => cases h
  | ok reply => exact ⟨reply, rfl, Option.some.inj h⟩

/-- A new feature. -/
def feature : Commit :=
  { hash := "c1", author := "Tester", time := 1700000000, offset := 0, message := "feat: a" }

/-- Something that is mended. -/
def mending : Commit :=
  { hash := "c2", author := "Tester", time := 1700000002, offset := 0, message := "fix: b" }

/-- The tag of a first release. -/
def firstTag : Cli.Change := .record (.tag "0.1.0" (some 1700000001) "HEAD")

/-- A repository with a release, and a commit since then. -/
def mended : Repository :=
  ((initial.afterCommit feature).afterChanges [firstTag]).afterCommit mending

/-- A feature is released, something is mended, and that is released too. -/
theorem Reachable.release_cycle_mended : Reachable initial mended ∧ mended.IsLater ⟨1700000003⟩ ∧
    ∃ reply, Cli.makeTag {} (.ofRepository mended) false ⟨1700000003⟩ = .ok reply ∧
      reply.changes = [.record (.tag "0.1.1" (some 1700000003) "HEAD")] ∧
      ∃ v : Version, String.ofList v.coreText = "0.1.1" ∧
        Releases mended v (mended.afterChanges reply.changes) := by
  have hfirst :
      changes? (Cli.makeTag {} (.ofRepository (initial.afterCommit feature)) false ⟨1700000001⟩) =
      some [firstTag] := by decide +kernel
  have hsecond : changes? (Cli.makeTag {} (.ofRepository mended) false ⟨1700000003⟩) =
      some [.record (.tag "0.1.1" (some 1700000003) "HEAD")] := by decide +kernel
  have hreachable : Reachable initial mended := by
    obtain ⟨reply, hreply, hchanges⟩ := exists_of_changes? hfirst
    have hcommit : Reachable initial (initial.afterCommit feature) := .commit .start (by decide)
    have hstep := hcommit.tag (by decide +kernel) hreply
    rw [hchanges] at hstep
    exact hstep.commit (by decide)
  have hlater : mended.IsLater ⟨1700000003⟩ := by decide +kernel
  have hhashes : initial.HasHashes := nofun
  obtain ⟨reply, hreply, hchanges⟩ := exists_of_changes? hsecond
  refine ⟨hreachable, hlater, reply, hreply, hchanges, ?_⟩
  rcases (hreachable.release_cycle rfl hhashes hlater).2 reply hreply with
    hnone | ⟨v, hv, hreleases⟩
  · rw [hchanges] at hnone
    cases hnone
  · rw [hchanges] at hv
    obtain ⟨hname, -⟩ := Event.tag.inj (Cli.Change.record.inj (List.cons.inj hv).1)
    exact ⟨v, hname.symm, hreleases⟩

end Repository

end ConventionalRelease
