import ConventionalRelease.Proofs.Commit.FooterLines
import ConventionalRelease.Proofs.Commit.Header
import ConventionalRelease.Proofs.Config.Validation
import ConventionalRelease.Proofs.Release.Levels
import ConventionalRelease.Proofs.Release.Note

/-!
# What breaks, from the log to the note

A commit is marked if its header has an exclamation mark before the colon, or if the first line of
its body that begins with the breaking footer says something (`Convention.IsMarked`). The marked
commits are those that are read as breaking (`Convention.breaking_iff_isMarked`), any of them calls
for a major release (`ReleasePolicy.aggregate_eq_major`), and the section of breaking changes has a
message for each of them (`ReleaseWriter.note_breaking`).
-/

namespace ConventionalRelease

/-- What follows the key on the first line of a body that begins with the breaking footer. -/
def breakingRest? (body : String) : Option (List Char) :=
  (Text.splitAt '\n' (Convention.bodyText body)).findSome? (Text.after? "BREAKING CHANGE: ".toList)

/-- What a commit says of what breaks: what its footer says, if it says anything, and else its
description. -/
def breakingWarning (commit : RawCommit) (entry : LogEntry) : String :=
  match breakingRest? commit.body with
  | some (c :: rest) => String.ofList (c :: rest)
  | _ => entry.message.description

/-- The breaking footer is found on the lines of the body. -/
theorem breakingIn?_bodyText (body : String) : breakingIn? (Convention.bodyText body) =
    (breakingRest? body).bind fun rest =>
      if rest = [] then none else some (String.ofList rest) := by
  have hlead : '\n' ∉ "BREAKING CHANGE: ".toList := by decide
  have hlines := Text.lineAfter?_join hlead (by decide)
    (fun line => Text.not_mem_of_mem_splitAt (s := Convention.bodyText body))
  rw [Text.join_splitAt] at hlines
  rw [breakingRest?, ← hlines]
  cases hfound : Text.lineAfter? "BREAKING CHANGE: ".toList true (Convention.bodyText body) with
  | none => exact footerIn?_of_none hfound
  | some rest => exact footerIn?_of_some hfound

/-- A footer says something exactly if its line goes on. -/
theorem breakingIn?_isSome (body : String) :
    (breakingIn? (Convention.bodyText body)).isSome = true ↔
    ∃ rest, breakingRest? body = some rest ∧ rest ≠ [] := by
  rw [breakingIn?_bodyText]
  cases breakingRest? body with
  | none => simp
  | some rest => by_cases hrest : rest = [] <;> simp [hrest]

/-- The warning is what the breaking footer says, and else the description. -/
theorem breakingWarning_eq (commit : RawCommit) (entry : LogEntry) : breakingWarning commit entry =
    (breakingIn? (Convention.bodyText commit.body)).getD entry.message.description := by
  rw [breakingIn?_bodyText, breakingWarning]
  match breakingRest? commit.body with
  | none => rfl
  | some [] => rfl
  | some (_ :: _) => rfl

namespace Convention

variable {config : Config} {c : Convention} {commit : RawCommit} {entry : LogEntry}

/-- The header of a commit has a mark, or the first line of its body with the breaking footer says
something. -/
def IsMarked (c : Convention) (commit : RawCommit) : Prop :=
  ∃ selected, c.header commit.subject = .ok selected ∧
    ((∃ header parens, Header.IsWritten header parens selected.toList ∧ header.marked = true) ∨
      ∃ rest, breakingRest? commit.body = some rest ∧ rest ≠ [])

/-- A header breaks something exactly if it is a header written out with a mark. -/
theorem ofHeader_breaking (selected : String) : (ofHeader selected "").breaking = true ↔
    ∃ header parens, Header.IsWritten header parens selected.toList ∧ header.marked = true := by
  unfold ofHeader
  cases hparse : Header.parse? selected.toList with
  | none =>
    refine ⟨nofun, ?_⟩
    rintro ⟨header, parens, hwritten, -⟩
    rw [Header.parse?_eq_some_iff.2 ⟨parens, hwritten⟩] at hparse
    cases hparse
  | some found =>
    constructor
    · intro hmarked
      obtain ⟨parens, hwritten⟩ := Header.parse?_eq_some_iff.1 hparse
      exact ⟨found, parens, hwritten, hmarked⟩
    · rintro ⟨header, parens, hwritten, hmarked⟩
      rw [Header.parse?_eq_some_iff.2 ⟨parens, hwritten⟩] at hparse
      cases hparse
      exact hmarked

/-- Where a header is selected, a commit is marked exactly if the header or the body says that
something breaks. -/
theorem isMarked_iff {selected : String} (h : c.header commit.subject = .ok selected) :
    c.IsMarked commit ↔ saysBreaking (ofHeader selected "") (bodyText commit.body) = true := by
  rw [saysBreaking, Bool.or_eq_true, ofHeader_breaking, breakingIn?_isSome]
  constructor
  · rintro ⟨other, hother, hsays⟩
    cases h.symm.trans hother
    exact hsays
  · intro hsays
    exact ⟨selected, h, hsays⟩

instance (c : Convention) (commit : RawCommit) : Decidable (c.IsMarked commit) :=
  match h : c.header commit.subject with
  | .error _ => isFalse fun ⟨_, hselected, _⟩ => nomatch h.symm.trans hselected
  | .ok selected =>
    decidable_of_iff (saysBreaking (ofHeader selected "") (bodyText commit.body) = true)
      (isMarked_iff h).symm

/-- A commit is read as breaking exactly if it is marked. -/
theorem breaking_iff_isMarked (h : ofConfig config = .ok c)
    (hentry : c.readCommit commit = .ok entry) :
    entry.message.breaking = true ↔ c.IsMarked commit := by
  obtain ⟨m, hm, hmade⟩ := bind_eq_ok.1 hentry
  cases hmade
  obtain ⟨selected, hselected, -, -, -, hbreaking, -⟩ := parse_spec h hm
  rw [isMarked_iff hselected, ← hbreaking]

/-- What a commit that breaks something says is its warning. -/
theorem breakingMessage?_eq (h : ofConfig config = .ok c) (hentry : c.readCommit commit = .ok entry)
    (hbreaks : entry.message.breaking = true) :
    entry.message.breakingMessage? = some (breakingWarning commit entry) := by
  obtain ⟨m, hm, hmade⟩ := bind_eq_ok.1 hentry
  cases hmade
  obtain ⟨selected, -, -, -, hdescription, hbreaking, hmessage, -⟩ := parse_spec h hm
  dsimp only at hbreaks ⊢
  rw [hmessage, breakingText?, breakingWarning_eq]
  cases hfooter : breakingIn? (bodyText commit.body) with
  | some value => rfl
  | none =>
    rw [hbreaking, saysBreaking, hfooter, Option.isSome_none, Bool.or_false] at hbreaks
    rw [if_pos hbreaks, hdescription]
    rfl

/-- The commits of a log that break something say the warnings of those that are marked. -/
theorem breakingMessages_eq (h : ofConfig config = .ok c) {log : List RawCommit}
    {entries : List LogEntry}
    (hlog : List.Forall₂ (fun commit entry => c.readCommit commit = .ok entry) log entries) :
    breakingMessages entries =
      ((log.zip entries).filter fun p => c.IsMarked p.1).map fun p => breakingWarning p.1 p.2 := by
  induction hlog with
  | nil => rfl
  | @cons commit entry log entries hentry _ ih =>
    have hmarked := breaking_iff_isMarked h hentry
    rw [breakingMessages] at ih ⊢
    rw [List.zip_cons_cons, List.filter_cons, List.filter_cons]
    by_cases hbreaks : entry.message.breaking = true
    · rw [if_pos hbreaks, if_pos (decide_eq_true (hmarked.1 hbreaks)), List.map_cons,
        List.map_cons, ih, breakingMessage?_eq h hentry hbreaks, Option.getD_some]
    · rw [if_neg hbreaks, if_neg fun hdecided =>
        hbreaks (hmarked.2 (of_decide_eq_true hdecided)), ih]

end Convention

/-! ## The bump -/

theorem ReleasePolicy.classify_of_breaking (policy : ReleasePolicy) {m : CommitMessage}
    (h : m.breaking = true) :
    policy.classify m = .major := by
  rw [classify, h, Bool.true_or, if_pos rfl]

/-- A commit that breaks something calls for a major release, whatever the rules for versions. -/
theorem ReleasePolicy.aggregate_eq_major (policy : ReleasePolicy) {entries : List LogEntry}
    {entry : LogEntry} (hentry : entry ∈ entries) (h : entry.message.breaking = true) :
    policy.aggregate entries = .major := by
  have hle := (isHighest_aggregate policy entries).le entry hentry
  rw [policy.classify_of_breaking h] at hle
  exact Bump.le_antisymm (Bump.le_major _) hle

/-! ## The section -/

/-- Whether the section is that of breaking changes. -/
def NoteSection.isBreaking : NoteSection → Bool
  | commits _ _ _ => false
  | breakingChanges _ _ => true

/-- Only a rule for breaking changes calls for a section of breaking changes. -/
theorem SectionRule.isBreaking_of_content? {rule : SectionRule} {commits : List LogEntry}
    {part : NoteSection} (h : rule.content? commits = some part) :
    part.isBreaking = true ↔ rule.kind = .breakingChanges := by
  unfold content? at h
  cases hkind : rule.kind <;> rw [hkind] at h <;> obtain ⟨_, -, rfl⟩ :=
    Option.map_eq_some_iff.1 h <;>
    simp [NoteSection.isBreaking]

/-- Of all that the rules call for, what concerns breaking changes is what their one rule calls
for. -/
theorem Outline.BreaksOnce.filter_isBreaking {rules : List SectionRule} (honce : BreaksOnce rules)
    {rule : SectionRule} (hrule : rule ∈ rules) (hkind : rule.kind = .breakingChanges)
    (commits : List LogEntry) :
    (rules.filterMap (·.content? commits)).filter (·.isBreaking) =
      (rule.content? commits).toList := by
  have hothers : ∀ others : List SectionRule, (∀ other ∈ others, other.kind ≠ .breakingChanges) →
      (others.filterMap (·.content? commits)).filter (·.isBreaking) = [] := by
    intro others hnone
    refine List.filter_eq_nil_iff.2 fun part hpart hbreaking => ?_
    obtain ⟨other, hother, hcontent⟩ := List.mem_filterMap.1 hpart
    exact hnone other hother ((SectionRule.isBreaking_of_content? hcontent).1 hbreaking)
  obtain ⟨before, after, rfl⟩ := List.append_of_mem hrule
  obtain ⟨-, hafter, hbefore⟩ := List.pairwise_append.1 honce
  have hfirst : ∀ other ∈ before, other.kind ≠ .breakingChanges := fun other hother hbreaking =>
    hbefore other hother rule List.mem_cons_self hbreaking hkind
  have hlast : ∀ other ∈ after, other.kind ≠ .breakingChanges := fun other hother =>
    (List.pairwise_cons.1 hafter).1 other hother hkind
  rw [List.filterMap_append, List.filter_append, hothers before hfirst, List.nil_append,
    List.filterMap_cons]
  cases hcontent : rule.content? commits with
  | none => exact hothers after hlast
  | some part =>
    rw [List.filter_cons_of_pos ((SectionRule.isBreaking_of_content? hcontent).2 hkind),
      hothers after hlast]
    rfl

/-- A rule for breaking changes calls for a section exactly if some commit breaks something. -/
theorem SectionRule.toList_content? (rule : SectionRule) (h : rule.kind = .breakingChanges)
    (entries : List LogEntry) :
    (rule.content? entries).toList =
      if ∃ entry ∈ entries, entry.message.breaking = true then
        [.breakingChanges rule.name (breakingMessages entries)]
      else [] := by
  have hempty : (breakingMessages entries).isEmpty = true ↔ ¬ ∃ entry ∈ entries,
      entry.message.breaking = true := by
    simp [breakingMessages]
  rw [content?, h]
  dsimp only [unlessEmpty]
  by_cases hbreaks : ∃ entry ∈ entries, entry.message.breaking = true
  · rw [if_pos hbreaks, if_neg fun hnone => hempty.1 hnone hbreaks]
    rfl
  · rw [if_neg hbreaks, if_pos (hempty.2 hbreaks)]
    rfl

/-! ## From the log to the note -/

/-- Of two lists that correspond one has an element of a kind exactly if the other has one of the
corresponding kind. -/
theorem exists_iff_of_forall₂ {α β : Type} {p : α → Prop} {q : β → Prop} {as : List α} {bs : List β}
    (h : List.Forall₂ (fun a b => q b ↔ p a) as bs) : (∃ b ∈ bs, q b) ↔ ∃ a ∈ as, p a := by
  induction h with
  | nil => simp
  | cons hhead _ ih => simp [hhead, ih]

/-- The commits that are read as breaking are those that are marked. Any of them calls for a major
release, whatever the rules for versions. Where there is a section of breaking changes, the note has
it exactly if some commit is marked, once and with one message for each marked commit in the order
of the log: what its footer says, and else its description. -/
theorem ReleaseWriter.note_breaking {config : Config} {writer : ReleaseWriter}
    (h : ofConfig config = .ok writer) {log : List RawCommit} {entries : List LogEntry}
    (hlog : writer.convention.readLog log = .ok entries) :
    List.Forall₂ (fun commit entry => entry.message.breaking = true ↔
      writer.convention.IsMarked commit) log entries ∧
      ((∃ commit ∈ log, writer.convention.IsMarked commit) →
        ∀ policy : ReleasePolicy, policy.aggregate entries = .major) ∧
      ∀ rule ∈ config.sections, rule.kind = .breakingChanges → ∀ version tag date, ∃ note,
        writer.note version tag date log = .ok note ∧
          note.sections.filter (·.isBreaking) =
            if ∃ commit ∈ log, writer.convention.IsMarked commit then
              [.breakingChanges rule.name
                (((log.zip entries).filter fun p => writer.convention.IsMarked p.1).map
                  fun p => breakingWarning p.1 p.2)]
            else [] := by
  obtain ⟨convention, hconvention, h⟩ := bind_eq_ok.1 h
  obtain ⟨outline, houtline, h⟩ := bind_eq_ok.1 h
  cases h
  have hread := mapM_eq_ok.1 hlog
  have hmarked : List.Forall₂ (fun commit entry => entry.message.breaking = true ↔
      convention.IsMarked commit) log entries :=
    hread.imp fun _ _ => Convention.breaking_iff_isMarked hconvention
  refine ⟨hmarked, ?_, ?_⟩
  · rintro ⟨commit, hcommit, hmark⟩ policy
    obtain ⟨entry, hentry, hbreaks⟩ := (exists_iff_of_forall₂ hmarked).2 ⟨commit, hcommit, hmark⟩
    exact policy.aggregate_eq_major hentry hbreaks
  · intro rule hrule hkind version tag date
    obtain ⟨-, -, honce⟩ := Outline.ofSections_spec houtline
    refine ⟨_, bind_eq_ok.2 ⟨entries, hlog, rfl⟩, ?_⟩
    rw [Outline.sections_note houtline, honce.filter_isBreaking hrule hkind,
      rule.toList_content? hkind entries, Convention.breakingMessages_eq hconvention hread]
    exact if_congr (exists_iff_of_forall₂ hmarked) rfl rfl

/-- Commits of which the first is marked in its header, the second says nothing after the key of its
first breaking footer, and the third is marked and has a footer. -/
def fragileLog : List RawCommit :=
  [{ date := "", timestamp := 0, author := "ada", hash := "c1", subject := "feat!: open"
     body := "" },
    { date := "", timestamp := 0, author := "ada", hash := "c2", subject := "fix: close"
      body := "BREAKING CHANGE: \r\nBREAKING CHANGE: late" },
    { date := "", timestamp := 0, author := "bob", hash := "c3", subject := "chore(io)!: move"
      body := "more\r\nBREAKING CHANGE: moved" }]

/-- Two of the commits break something: one says its description, and one what its footer says. -/
theorem ReleaseWriter.note_breaking_fragileLog :
    ∃ writer entries note, ofConfig {} = .ok writer ∧
      writer.convention.readLog fragileLog = .ok entries ∧
      ReleasePolicy.aggregate ⟨{ major := [], minor := [], patch := [] }, []⟩ entries = .major ∧
      writer.note none "" none fragileLog = .ok note ∧
      note.sections.filter (·.isBreaking) =
        [.breakingChanges "Breaking Changes" ["open", "moved"]] := by
  obtain ⟨writer, hwriter, htried⟩ := exists_of_any (x := ofConfig {})
    (p := fun writer => (writer.convention.readLog fragileLog).toOption.any fun entries =>
      (∃ commit ∈ fragileLog, writer.convention.IsMarked commit) ∧
        (((fragileLog.zip entries).filter fun p => writer.convention.IsMarked p.1).map
          fun p => breakingWarning p.1 p.2) = ["open", "moved"]) (by decide +kernel)
  obtain ⟨entries, hlog, htried⟩ := exists_of_any htried
  obtain ⟨hmarked, hwarnings⟩ := of_decide_eq_true htried
  obtain ⟨-, hmajor, hsection⟩ := note_breaking hwriter hlog
  obtain ⟨note, hnote, hparts⟩ := hsection _ (.tail _ (.tail _ (.head _))) rfl none "" none
  rw [if_pos hmarked, hwarnings] at hparts
  exact ⟨writer, entries, note, hwriter, hlog, hmajor hmarked _, hnote, hparts⟩

end ConventionalRelease
