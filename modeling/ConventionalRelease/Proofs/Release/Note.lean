import ConventionalRelease.Proofs.Release.Outline
import ConventionalRelease.Release.Note
import Mathlib.Data.List.Induction
import Mathlib.Data.List.Nodup

/-!
# What a release note says

Each section of an outline says of the commits what its rule calls for (`SectionRule.content?`), and
a release note has these sections, as far as they say anything (`Outline.note_spec`). Behind this
are two loops: one gathers the commits by the numbers of their sections (`Gathered.Holds.add`), and
one takes out of what is gathered section by section (`Gathered.Awaits.sectionsFrom_eq`).
-/

namespace ConventionalRelease

/-- A list, unless it is empty. -/
def unlessEmpty {α : Type} (l : List α) : Option (List α) :=
  if l.isEmpty then none else some l

theorem unlessEmpty_eq_some {α : Type} {l found : List α} :
    unlessEmpty l = some found ↔ l = found ∧ found ≠ [] := by
  unfold unlessEmpty
  cases l with
  | nil => simp
  | cons a l =>
    rw [List.isEmpty_cons, if_neg Bool.false_ne_true, Option.some_inj]
    exact ⟨fun h => ⟨h, h ▸ List.cons_ne_nil a l⟩, fun h => h.1⟩

theorem getD_unlessEmpty {α : Type} (l : List α) : (unlessEmpty l).getD [] = l := by
  cases l <;> rfl

theorem unlessEmpty_concat {α : Type} (l : List α) (a : α) :
    unlessEmpty (l ++ [a]) = some (l ++ [a]) :=
  unlessEmpty_eq_some.2 ⟨rfl, List.concat_ne_nil a l⟩

/-- What the breaking commits say of what breaks, in the order of the log. -/
def breakingMessages (commits : List LogEntry) : List String :=
  (commits.filter (·.message.breaking)).map fun c => c.message.breakingMessage?.getD ""

/-- The commits of some types, in the order of the log. -/
def ofTypes (types : List String) (commits : List LogEntry) : List LogEntry :=
  commits.filter fun c => c.message.type ∈ types

/-- What a section says of the commits of a release, if anything. -/
def SectionRule.content? (rule : SectionRule) (commits : List LogEntry) : Option NoteSection :=
  match rule.kind with
  | .breakingChanges => (unlessEmpty (breakingMessages commits)).map (.breakingChanges rule.name)
  | .commits =>
    (unlessEmpty (ofTypes rule.commitTypes commits)).map (.commits rule.name rule.commitTypes)

namespace NoteSection

/-- The commits that the section lists. -/
def listed : NoteSection → List LogEntry
  | commits _ _ items => items
  | breakingChanges _ _ => []

/-- Whether the section says nothing. -/
def isEmpty : NoteSection → Bool
  | commits _ _ items => items.isEmpty
  | breakingChanges _ messages => messages.isEmpty

end NoteSection

/-! ## Gathering -/

namespace Gathered

variable {outline : Outline} {g : Gathered} {commits : List LogEntry}

/-- A commit is put at the end of those with its number. -/
theorem lookup_insertItem (index other : Nat) (c : LogEntry) (items : List (Nat × List LogEntry)) :
    (insertItem index c items).lookup other =
      if other = index then some ((items.lookup other).getD [] ++ [c]) else items.lookup other := by
  induction items with
  | nil =>
    rw [insertItem, lookup_cons]
    rfl
  | cons head rest ih =>
    obtain ⟨first, gathered⟩ := head
    rw [insertItem]
    by_cases hfirst : first = index
    · subst hfirst
      rw [if_pos rfl, lookup_cons, lookup_cons]
      split <;> rfl
    · rw [if_neg hfirst, lookup_cons, lookup_cons, ih]
      by_cases hother : other = first
      · rw [if_pos hother, if_pos hother, if_neg fun h => hfirst (hother.symm.trans h)]
      · rw [if_neg hother, if_neg hother]

/-- What is gathered is what the commits hold: those that have an owner under its number, what
breaks, and the authors. -/
structure Holds (outline : Outline) (commits : List LogEntry) (g : Gathered) : Prop where
  items : ∀ index, g.items.lookup index =
    unlessEmpty (commits.filter fun c => outline.owners.get? c.message.type = some index)
  breaking : g.breaking = breakingMessages commits
  nodup_authors : g.authors.Nodup
  mem_authors : ∀ name, name ∈ g.authors ↔ ∃ c ∈ commits, c.author = name

/-- One more commit is taken in. -/
theorem Holds.add (h : Holds outline commits g) (c : LogEntry) :
    Holds outline (commits ++ [c]) (g.add outline c) where
  items index := by
    rw [List.filter_append, Gathered.add]
    dsimp only
    cases howner : outline.owners.get? c.message.type with
    | none =>
      rw [h.items, List.filter_singleton, howner]
      simp
    | some owner =>
      dsimp only
      rw [lookup_insertItem, h.items, getD_unlessEmpty, List.filter_singleton, howner]
      by_cases hindex : index = owner
      · rw [if_pos hindex, decide_eq_true (congrArg some hindex.symm), cond_true,
          unlessEmpty_concat]
      · simp [hindex, Ne.symm hindex]
  breaking := by
    rw [Gathered.add, breakingMessages, List.filter_append, List.map_append, h.breaking,
      List.filter_singleton]
    cases c.message.breaking with
    | true => rfl
    | false => exact (List.append_nil _).symm
  nodup_authors := List.Nodup.insert h.nodup_authors
  mem_authors name := by
    rw [Gathered.add]
    simp [h.mem_authors, or_comm, eq_comm]

/-- What is gathered from commits is what they hold. -/
theorem holds_ofCommits (outline : Outline) (commits : List LogEntry) :
    Holds outline commits (ofCommits outline commits) := by
  induction commits using List.reverseRecOn with
  | nil => exact ⟨fun _ => rfl, rfl, List.nodup_nil, by simp [ofCommits]⟩
  | append_singleton commits c ih =>
    rw [ofCommits, List.foldl_concat]
    exact ih.add c

/-! ## Taking out -/

/-- Commits that are taken out are no longer there; the others are. -/
theorem lookup_filter_ne {index other : Nat} (h : other ≠ index)
    (items : List (Nat × List LogEntry)) :
    (items.filter (·.1 != index)).lookup other = items.lookup other := by
  induction items with
  | nil => rfl
  | cons head rest ih =>
    obtain ⟨first, gathered⟩ := head
    rw [List.filter_cons, lookup_cons]
    by_cases hfirst : first = index
    · subst hfirst
      rw [if_neg (by simp), if_neg h, ih]
    · rw [if_pos (by simpa using hfirst), lookup_cons, ih]

/-- What there is for sections from a number on: for each that collects types their commits, and for
one that collects breaking changes what breaks. -/
structure Awaits (commits : List LogEntry) (index : Nat) (rules : List SectionRule) (g : Gathered) :
    Prop where
  items : ∀ i rule, rules[i]? = some rule → rule.kind = .commits →
    g.items.lookup (index + i) = unlessEmpty (ofTypes rule.commitTypes commits)
  breaking : ∀ rule ∈ rules, rule.kind = .breakingChanges → g.breaking = breakingMessages commits

/-- The first section takes out what its rule calls for, and leaves what there is for the others. -/
theorem Awaits.takeSection {index : Nat} {rule : SectionRule} {rules : List SectionRule}
    (h : Awaits commits index (rule :: rules) g)
    (honce : rule.kind = .breakingChanges → ∀ other ∈ rules, other.kind ≠ .breakingChanges) :
    (g.takeSection index rule).1 = rule.content? commits ∧
      Awaits commits (index + 1) rules (g.takeSection index rule).2 := by
  have hitems : ∀ i other, rules[i]? = some other → other.kind = .commits →
      g.items.lookup (index + 1 + i) = unlessEmpty (ofTypes other.commitTypes commits) := by
    intro i other hother hkind
    rw [Nat.add_assoc, Nat.add_comm 1 i]
    exact h.items (i + 1) other hother hkind
  unfold Gathered.takeSection SectionRule.content?
  cases hkind : rule.kind with
  | breakingChanges =>
    have hnone : ∀ (messages : List String), ∀ other ∈ rules, other.kind = .breakingChanges →
        messages = breakingMessages commits :=
          fun _ other hother hkind' => absurd hkind' (honce hkind other hother)
    rw [h.breaking rule List.mem_cons_self hkind]
    dsimp only [unlessEmpty]
    split <;> exact ⟨rfl, hitems, hnone _⟩
  | commits =>
    have hfirst := h.items 0 rule rfl hkind
    have hbreaking : ∀ other ∈ rules, other.kind = .breakingChanges →
        g.breaking = breakingMessages commits :=
      fun other hother => h.breaking other (List.mem_cons_of_mem _ hother)
    rw [Nat.add_zero] at hfirst
    dsimp only
    rw [hfirst]
    cases unlessEmpty (ofTypes rule.commitTypes commits) with
    | none => exact ⟨rfl, hitems, hbreaking⟩
    | some items =>
      refine ⟨rfl, fun i other hother hkind' => ?_, hbreaking⟩
      dsimp only
      rw [lookup_filter_ne (by omega)]
      exact hitems i other hother hkind'

/-- Section by section what the rules call for is taken out. -/
theorem Awaits.sectionsFrom_eq {index : Nat} {rules : List SectionRule}
    (h : Awaits commits index rules g) (honce : Outline.BreaksOnce rules) :
    g.sectionsFrom index rules = rules.filterMap (·.content? commits) := by
  induction rules generalizing index g with
  | nil => rfl
  | cons rule rules ih =>
    obtain ⟨hrule, hrest⟩ := List.pairwise_cons.1 honce
    obtain ⟨hpart, hawaits⟩ := h.takeSection fun hkind other hother => hrule other hother hkind
    show (g.takeSection index rule).1.toList ++ (g.takeSection index rule).2.sectionsFrom
        (index + 1) rules = _
    rw [ih hawaits hrest, hpart, List.filterMap_cons]
    cases rule.content? commits <;> rfl

end Gathered

/-! ## The note -/

section
variable {rule : SectionRule} {part : NoteSection} {commits : List LogEntry}

/-- A section that says something lists each commit of its types as often as it is in the log, and
no other commits. -/
theorem SectionRule.content?_eq_some (h : rule.content? commits = some part) :
    part.isEmpty = false ∧
      ∀ c, part.listed.count c = if rule.Lists c.message.type then commits.count c else 0 := by
  unfold content? at h
  cases hkind : rule.kind with
  | breakingChanges =>
    rw [hkind] at h
    obtain ⟨messages, hmessages, rfl⟩ := Option.map_eq_some_iff.1 h
    obtain ⟨-, hne⟩ := unlessEmpty_eq_some.1 hmessages
    refine ⟨List.isEmpty_eq_false_iff.2 hne, fun c => ?_⟩
    have hnot : ¬ rule.Lists c.message.type := fun hlists => by cases hkind.symm.trans hlists.1
    rw [if_neg hnot]
    rfl
  | commits =>
    rw [hkind] at h
    obtain ⟨items, hitems, rfl⟩ := Option.map_eq_some_iff.1 h
    obtain ⟨rfl, hne⟩ := unlessEmpty_eq_some.1 hitems
    refine ⟨List.isEmpty_eq_false_iff.2 hne, fun c => ?_⟩
    show (ofTypes rule.commitTypes commits).count c = _
    split
    · next hlists => exact List.count_filter (decide_eq_true hlists.2)
    · next hnot =>
      refine List.count_eq_zero.2 fun hc => hnot ⟨hkind, ?_⟩
      exact of_decide_eq_true (List.mem_filter.1 hc).2

/-- A section that lists a commit of the log says something. -/
theorem SectionRule.exists_content? {c : LogEntry} (hlists : rule.Lists c.message.type)
    (hc : c ∈ commits) :
    ∃ part, rule.content? commits = some part := by
  have hne : ofTypes rule.commitTypes commits ≠ [] :=
    List.ne_nil_of_mem (List.mem_filter.2 ⟨hc, decide_eq_true hlists.2⟩)
  unfold content?
  rw [hlists.1, unlessEmpty_eq_some.2 ⟨rfl, hne⟩]
  exact ⟨_, rfl⟩

/-- What a section lists is in the log, and of its types. -/
theorem SectionRule.of_mem_listed (h : rule.content? commits = some part) {c : LogEntry}
    (hc : c ∈ part.listed) :
    c ∈ commits ∧ rule.Lists c.message.type := by
  have hcount := (content?_eq_some h).2 c
  have hpos : 0 < part.listed.count c := List.count_pos_iff.2 hc
  rw [hcount] at hpos
  split at hpos
  · next hlists => exact ⟨List.count_pos_iff.1 hpos, hlists⟩
  · cases hpos

end

namespace Outline

variable {sections : List SectionRule} {outline : Outline}

/-- The commits gathered under the number of a section are those that it lists. -/
theorem awaits_ofCommits (h : ofSections sections = .ok outline) (commits : List LogEntry) :
    Gathered.Awaits commits 0 sections (Gathered.ofCommits outline commits) where
  items i rule hrule hkind := by
    obtain ⟨-, howners, -⟩ := ofSections_spec h
    rw [Nat.zero_add, (Gathered.holds_ofCommits outline commits).items, ofTypes]
    refine congrArg unlessEmpty (List.filter_congr fun c _ => decide_eq_decide.2 ?_)
    rw [howners, Owns, hrule]
    simp [SectionRule.Lists, hkind]
  breaking _ _ _ := (Gathered.holds_ofCommits outline commits).breaking

/-- A commit whose type a section lists is in that section as often as it is in the log, and in no
other section. -/
theorem exists_split_of_mem (h : ofSections sections = .ok outline) {rule : SectionRule}
    (hrule : rule ∈ sections) {commits : List LogEntry} {c : LogEntry}
    (hlists : rule.Lists c.message.type) (hc : c ∈ commits) :
    ∃ before part after, sections.filterMap (·.content? commits) = before ++ part :: after ∧
      part.listed.count c = commits.count c ∧ ∀ other ∈ before ++ after, c ∉ other.listed := by
  obtain ⟨before, after, rfl, hothers⟩ := exists_split_of_lists h hrule hlists
  obtain ⟨part, hpart⟩ := SectionRule.exists_content? hlists hc
  refine ⟨before.filterMap (·.content? commits), part,
    after.filterMap (·.content? commits), ?_, ?_, ?_⟩
  · rw [List.filterMap_append, List.filterMap_cons, hpart]
  · rw [(SectionRule.content?_eq_some hpart).2, if_pos hlists]
  · intro other hother hlisted
    rw [← List.filterMap_append] at hother
    obtain ⟨rule, hrule, hcontent⟩ := List.mem_filterMap.1 hother
    exact hothers rule hrule (SectionRule.of_mem_listed hcontent hlisted).2

/-- The sections of a release note are those that say what the rules call for. -/
theorem sections_note (h : ofSections sections = .ok outline) (version : Option Version)
    (tag : String) (date : Option Instant) (commits : List LogEntry) :
    (outline.note version tag date commits).sections = sections.filterMap (·.content? commits) := by
  obtain ⟨hsections, -, honce⟩ := ofSections_spec h
  rw [note, hsections]
  exact (awaits_ofCommits h commits).sectionsFrom_eq honce

/-- A release note has a section for each rule, in order, that says what the rule calls for, as far
as that is anything. So each commit whose type a section lists is in exactly one section, as often
as it is in the log, every other commit is in none, and no section is empty. The authors are those
of the commits, each once. -/
theorem note_spec (h : ofSections sections = .ok outline) {version : Option Version} {tag : String}
    {date : Option Instant} {commits : List LogEntry} {note : ReleaseNote}
    (hnote : outline.note version tag date commits = note) :
    note.version = version ∧ note.tag = tag ∧ note.date = date.map Instant.minute ∧
      note.sections = sections.filterMap (·.content? commits) ∧
      (∀ c ∈ commits, (∃ rule ∈ sections, rule.Lists c.message.type) →
        ∃ before part after, note.sections = before ++ part :: after ∧
          part.listed.count c = commits.count c ∧
          ∀ other ∈ before ++ after, c ∉ other.listed) ∧
      (∀ part ∈ note.sections, part.isEmpty = false ∧
        ∀ c ∈ part.listed, c ∈ commits ∧ ∃ rule ∈ sections, rule.Lists c.message.type) ∧
      note.authors.Nodup ∧ ∀ name, name ∈ note.authors ↔ ∃ c ∈ commits, c.author = name := by
  subst hnote
  have hgathered := Gathered.holds_ofCommits outline commits
  have hparts := sections_note h version tag date commits
  refine ⟨rfl, rfl, rfl, hparts, ?_, ?_, ?_, ?_⟩
  · rintro c hc ⟨rule, hrule, hlists⟩
    rw [hparts]
    exact exists_split_of_mem h hrule hlists hc
  · intro part hpart
    rw [hparts] at hpart
    obtain ⟨rule, hrule, hcontent⟩ := List.mem_filterMap.1 hpart
    refine ⟨(SectionRule.content?_eq_some hcontent).1, fun c hc => ?_⟩
    obtain ⟨hmem, hlists⟩ := SectionRule.of_mem_listed hcontent hc
    exact ⟨hmem, rule, hrule, hlists⟩
  · exact (List.mergeSort_perm _ _).nodup_iff.2 hgathered.nodup_authors
  · intro name
    exact List.mem_mergeSort.trans (hgathered.mem_authors name)

/-- Sections of which two have one name. -/
def sameName : Outline where
  sections :=
    [{ name := "Changes", kind := .commits, commitTypes := ["feat"] },
      { name := "Breaking Changes", kind := .breakingChanges },
      { name := "Changes", kind := .commits, commitTypes := ["fix", "perf"] }]
  owners := .ofList [("feat", 0), ("fix", 2), ("perf", 2)]

/-- A commit of an author. -/
def entry (author type : String) (breaking : Bool) : LogEntry :=
  { date := "", timestamp := 0, author, hash := "", message := { type, breaking } }

/-- Commits by two authors, of which one breaks something and one has a type that no section
lists. -/
def mixed : List LogEntry :=
  [entry "ada" "fix" false, entry "bob" "feat" true, entry "ada" "chore" false,
    entry "bob" "perf" false]

/-- Sections with one name keep their own commits each, and a commit of a type that no section lists
is left out. -/
theorem note_spec_sameName :
    ofSections sameName.sections = .ok sameName ∧ ∃ note, sameName.note none "" none mixed = note ∧
      note.sections = [.commits "Changes" ["feat"] [entry "bob" "feat" true],
        .breakingChanges "Breaking Changes" [""],
          .commits "Changes" ["fix", "perf"] [entry "ada" "fix" false, entry "bob" "perf" false]] ∧
      (∃ before part after, note.sections = before ++ part :: after ∧
        part.listed.count (entry "bob" "perf" false) = 1 ∧
        ∀ other ∈ before ++ after, entry "bob" "perf" false ∉ other.listed) ∧
      note.authors.Nodup ∧ "ada" ∈ note.authors ∧ "bob" ∈ note.authors := by
  have houtline : ofSections sameName.sections = .ok sameName := rfl
  obtain ⟨-, -, -, hsections, honce, -, hnodup, hauthors⟩ :=
    @note_spec _ _ houtline none "" none mixed _ rfl
  refine ⟨houtline, _, rfl, hsections, ?_, hnodup, ?_, ?_⟩
  · exact honce (entry "bob" "perf" false) (by decide) ⟨_, .tail _ (.tail _ (.head _)), by decide⟩
  · exact (hauthors "ada").2 (by decide)
  · exact (hauthors "bob").2 (by decide)

end Outline

end ConventionalRelease
