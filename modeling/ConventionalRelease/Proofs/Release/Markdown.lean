import ConventionalRelease.Proofs.Calendar.Text
import ConventionalRelease.Proofs.Commit.OneLine
import ConventionalRelease.Proofs.Release.Note
import ConventionalRelease.Proofs.Version.Text
import ConventionalRelease.Release.Markdown

/-!
# Reading a release note in Markdown

A release note in Markdown is made up of lines (`ReleaseNote.toList_markdown`). As long as none of
what it shows goes on to another line, its titles and list items can be read back section by section
(`Markdown.listing_sections`). What is shown of a log whose subjects are on one line each is of this
kind, so each commit of a section is on one list item below the title
(`ReleaseWriter.listing_markdown`).
-/

namespace ConventionalRelease

/-! ## Titles and list items -/

namespace Markdown

/-- What the title of a section begins with. -/
def titleMark : List Char := "### ".toList

/-- What a list item begins with. -/
def itemMark : List Char := "- ".toList

/-- Reads lines as a listing: the list items before the first title, and each title with the list
items up to the next one. All other lines are passed over. -/
def listing : List (List Char) → List (List Char) × List (List Char × List (List Char))
  | [] => ([], [])
  | line :: rest =>
    match Text.after? titleMark line, Text.after? itemMark line with
    | some title, _ => ([], (title, (listing rest).1) :: (listing rest).2)
    | none, some item => (item :: (listing rest).1, (listing rest).2)
    | none, none => listing rest

variable {line : List Char} {rest : List (List Char)}

theorem listing_title (title : List Char) (rest : List (List Char)) :
    listing ((titleMark ++ title) :: rest) =
      ([], (title, (listing rest).1) :: (listing rest).2) := by
  rw [listing, Text.after?_append]

theorem listing_item (item : List Char) (rest : List (List Char)) :
    listing ((itemMark ++ item) :: rest) = (item :: (listing rest).1, (listing rest).2) := by
  have htitle : Text.after? titleMark (itemMark ++ item) = none := rfl
  rw [listing, htitle, Text.after?_append]

/-- A line that is neither a title nor a list item is passed over. -/
theorem listing_other (htitle : Text.after? titleMark line = none)
    (hitem : Text.after? itemMark line = none) :
    listing (line :: rest) = listing rest := by
  rw [listing, htitle, hitem]

theorem listing_items (items : List (List Char)) (rest : List (List Char)) :
    listing (items.map (itemMark ++ ·) ++ rest) =
      (items ++ (listing rest).1, (listing rest).2) := by
  induction items with
  | nil => rfl
  | cons item items ih => rw [List.map_cons, List.cons_append, listing_item, ih, List.cons_append]

/-- The titles of a listing are all the lines that begin like a title. -/
theorem map_fst_listing (lines : List (List Char)) :
    (listing lines).2.map (·.1) = lines.filterMap (Text.after? titleMark) := by
  induction lines with
  | nil => rfl
  | cons line rest ih =>
    rw [listing, List.filterMap_cons, ← ih]
    cases Text.after? titleMark line with
    | some title => rfl
    | none => cases Text.after? itemMark line <;> rfl

/-- No line is both a title and a list item. -/
theorem after?_itemMark_of_title {title : List Char} (h : Text.after? titleMark line = some title) :
    Text.after? itemMark line = none := by
  rw [Text.after?_eq_some] at h
  subst h
  rfl

/-- The list items of a listing are all the lines that begin like a list item. -/
theorem flatMap_snd_listing (lines : List (List Char)) :
    (listing lines).1 ++ (listing lines).2.flatMap (·.2) =
      lines.filterMap (Text.after? itemMark) := by
  induction lines with
  | nil => rfl
  | cons line rest ih =>
    rw [listing, List.filterMap_cons, ← ih]
    cases htitle : Text.after? titleMark line with
    | some title => rw [after?_itemMark_of_title htitle]; rfl
    | none => cases Text.after? itemMark line <;> rfl

end Markdown

open Markdown

/-! ## The lines of a note -/

/-- What the list item of a commit says. -/
def LogEntry.itemText (c : LogEntry) (showType : Bool) : List Char :=
  (c.message.lead showType).toList ++ c.message.description.toList ++ " (".toList ++
    c.hash.toList ++ [')'] ++
    match c.message.issue? with
    | some issue => " (".toList ++ issue.toList ++ [')']
    | none => []

theorem LogEntry.toList_item (c : LogEntry) (showType : Bool) :
    (c.item showType).toList = itemMark ++ c.itemText showType ++ ['\n'] := by
  rw [item, itemText, itemMark]
  cases c.message.issue? <;> simp

namespace NoteSection

/-- What the list items of a section say: one for each commit, or for each message of what
breaks. -/
def itemTexts : NoteSection → List (List Char)
  | commits _ types items => items.map (·.itemText (types.length > 1))
  | breakingChanges _ messages => messages.map (·.toList)

/-- The lines of a section. -/
def lines (part : NoteSection) : List (List Char) :=
  (titleMark ++ part.name.toList) :: [] :: (part.itemTexts.map (itemMark ++ ·) ++ [[]])

theorem toList_items (part : NoteSection) :
    part.items.toList = (part.itemTexts.map (itemMark ++ ·)).flatMap (· ++ ['\n']) := by
  cases part with
  | commits name types items =>
    simp only [NoteSection.items, itemTexts, String.toList_join, List.flatMap_map,
      LogEntry.toList_item]
  | breakingChanges name messages =>
    simp [NoteSection.items, itemTexts, String.toList_join, List.flatMap_map, itemMark]

theorem toList_markdown (part : NoteSection) :
    part.markdown.toList = part.lines.flatMap (· ++ ['\n']) := by
  simp [markdown, lines, toList_items, titleMark]

/-- All that a section shows is on one line each. -/
structure IsOneLine (part : NoteSection) : Prop where
  name : '\n' ∉ part.name.toList
  items : ∀ item ∈ part.itemTexts, '\n' ∉ item

theorem IsOneLine.lines {part : NoteSection} (h : part.IsOneLine) :
    ∀ line ∈ part.lines, '\n' ∉ line := by
  have htitle : '\n' ∉ titleMark := by decide
  have hitem : '\n' ∉ itemMark := by decide
  intro line hline
  simp only [NoteSection.lines, List.mem_cons, List.mem_append, List.mem_map, List.not_mem_nil,
    or_false] at hline
  rcases hline with rfl | rfl | ⟨item, hmem, rfl⟩ | rfl
  · exact fun hmem => (List.mem_append.1 hmem).elim htitle h.name
  · exact List.not_mem_nil
  · exact fun hline => (List.mem_append.1 hline).elim hitem (h.items item hmem)
  · exact List.not_mem_nil

end NoteSection

/-- The sections are read back from their lines, as long as no titles and list items follow. -/
theorem Markdown.listing_sections {rest : List (List Char)} (parts : List NoteSection)
    (h : listing rest = ([], [])) :
    listing (parts.flatMap (·.lines) ++ rest) =
      ([], parts.map fun part => (part.name.toList, part.itemTexts)) := by
  induction parts with
  | nil => exact h
  | cons part parts ih =>
    rw [List.flatMap_cons, NoteSection.lines, List.append_assoc, List.cons_append, listing_title,
      List.cons_append, listing_other rfl rfl, List.append_assoc, listing_items,
      List.singleton_append, listing_other rfl rfl, ih, List.append_nil, List.map_cons]

namespace ReleaseNote

variable {note : ReleaseNote}

/-- The lines that name the authors. -/
def authorLines (note : ReleaseNote) (withAuthors : Bool) : List (List Char) :=
  if withAuthors && !note.authors.isEmpty then
    ["**Authors:** ".toList ++ Text.join ", ".toList (note.authors.map (·.toList)), []]
  else []

/-- The lines of a note. -/
def lines (note : ReleaseNote) (withAuthors : Bool) : List (List Char) :=
  note.heading.toList :: [] :: (note.sections.flatMap (·.lines) ++ note.authorLines withAuthors)

/-- A note in Markdown is made up of its lines. -/
theorem toList_markdown (note : ReleaseNote) (withAuthors : Bool) :
    (note.markdown withAuthors).toList = (note.lines withAuthors).flatMap (· ++ ['\n']) := by
  have hsections : (String.join (note.sections.map (·.markdown))).toList =
      (note.sections.flatMap (·.lines)).flatMap (· ++ ['\n']) := by
    simp [String.toList_join, List.flatMap_map, List.flatMap_assoc, NoteSection.toList_markdown]
  have hauthors : (if withAuthors then note.authorLine else "").toList =
      (note.authorLines withAuthors).flatMap (· ++ ['\n']) := by
    rw [authorLine, authorLines]
    cases withAuthors <;> cases note.authors.isEmpty <;>
      simp [String.toList_intercalate, Text.join_eq_intercalate]
  rw [markdown, lines, String.toList_append, hauthors, String.toList_append, hsections]
  simp

/-- All that a note shows is on one line each. -/
structure IsOneLine (note : ReleaseNote) : Prop where
  tag : '\n' ∉ note.tag.toList
  sections : ∀ part ∈ note.sections, part.IsOneLine
  authors : ∀ author ∈ note.authors, '\n' ∉ author.toList

/-- The day of a release is on one line. -/
theorem not_mem_date_text (d : Date) : '\n' ∉ d.text.toList := by
  have hnumber : ∀ {width n : Nat}, '\n' ∉ Date.padded width n := fun hmem => by
    cases Date.isDigit_of_mem_padded hmem
  rw [Date.text, String.toList_ofList, Date.characters, Date.yearCharacters]
  split
  · simp [hnumber]
  · split <;> simp [hnumber]

theorem not_mem_version_text (v : Version) : '\n' ∉ v.text.toList := by
  rw [Version.text, String.toList_ofList]
  intro hmem
  rcases Version.mem_characters hmem with h | h | h | h <;> cases h

theorem IsOneLine.heading (h : note.IsOneLine) : '\n' ∉ note.heading.toList := by
  have hlabel : ∀ label, note.label? = some label → '\n' ∉ label.toList := by
    intro label hlabel
    unfold label? at hlabel
    split at hlabel
    · cases hlabel
      simp [not_mem_version_text]
    · split at hlabel
      · cases hlabel
      · cases hlabel
        exact h.tag
  rw [ReleaseNote.heading]
  cases hl : note.label? with
  | none => cases note.date <;> simp [not_mem_date_text]
  | some label => cases note.date <;> simp [hlabel label hl, not_mem_date_text]

theorem IsOneLine.authorLines (h : note.IsOneLine) (withAuthors : Bool) :
    ∀ line ∈ note.authorLines withAuthors, '\n' ∉ line := by
  have hlead : '\n' ∉ "**Authors:** ".toList := by simp
  have hcomma : ∀ c ∈ ", ".toList, (c != '\n') = true := by simp
  have hnames : '\n' ∉ Text.join ", ".toList (note.authors.map (·.toList)) := by
    intro hmem
    refine bne_iff_ne.1
      (Text.all_join hcomma (List.forall_mem_map.2 fun author hauthor c hc => ?_) '\n' hmem) rfl
    exact bne_iff_ne.2 fun hline => h.authors author hauthor (hline ▸ hc)
  rw [ReleaseNote.authorLines]
  split
  · refine List.forall_mem_cons.2 ⟨fun hmem => ?_, List.forall_mem_singleton.2 List.not_mem_nil⟩
    exact (List.mem_append.1 hmem).elim hlead hnames
  · nofun

theorem IsOneLine.lines (h : note.IsOneLine) (withAuthors : Bool) :
    ∀ line ∈ note.lines withAuthors, '\n' ∉ line := by
  intro line hline
  simp only [ReleaseNote.lines, List.mem_cons, List.mem_append, List.mem_flatMap] at hline
  rcases hline with rfl | rfl | ⟨part, hpart, hline⟩ | hline
  · exact h.heading
  · exact List.not_mem_nil
  · exact (h.sections part hpart).lines line hline
  · exact h.authorLines withAuthors line hline

/-- The heading of a note is neither a title nor a list item. -/
theorem listing_heading (note : ReleaseNote) (rest : List (List Char)) :
    listing (note.heading.toList :: rest) = listing rest := by
  have hlead : ∃ text, note.heading.toList = "## ".toList ++ text := by
    rw [heading]
    cases note.label? <;> cases note.date <;> simp
  obtain ⟨text, htext⟩ := hlead
  rw [htext]
  exact listing_other rfl rfl

/-- A note on lines is read back as its sections. -/
theorem listing_markdown_of_isOneLine (h : note.IsOneLine) (withAuthors : Bool) :
    listing (Text.splitAt '\n' (note.markdown withAuthors).toList) =
      ([], note.sections.map fun part => (part.name.toList, part.itemTexts)) := by
  have hrest : listing (note.authorLines withAuthors ++ [[]]) = ([], []) := by
    rw [authorLines]
    split <;> rfl
  rw [toList_markdown, Text.splitAt_flatMap_concat (h.lines withAuthors), lines, List.cons_append,
    listing_heading, List.cons_append, listing_other rfl rfl, List.append_assoc,
    listing_sections _ hrest]

end ReleaseNote

/-! ## From the log to the lines -/

/-- All that is shown of a commit is on one line. -/
structure LogEntry.IsOneLine (entry : LogEntry) : Prop where
  message : entry.message.IsOneLine
  hash : '\n' ∉ entry.hash.toList
  author : '\n' ∉ entry.author.toList

variable {entries : List LogEntry}

theorem Convention.isOneLine_of_readCommit {config : Config} {c : Convention}
    (h : ofConfig config = .ok c) {commit : RawCommit} {entry : LogEntry}
    (hentry : c.readCommit commit = .ok entry) (hsubject : '\n' ∉ commit.subject.toList)
    (hhash : '\n' ∉ commit.hash.toList) (hauthor : '\n' ∉ commit.author.toList) :
    entry.IsOneLine := by
  obtain ⟨m, hm, hmade⟩ := bind_eq_ok.1 hentry
  cases hmade
  exact ⟨isOneLine_of_parse h hm hsubject, hhash, hauthor⟩

theorem CommitMessage.IsOneLine.lead {m : CommitMessage} (h : m.IsOneLine) (showType : Bool) :
    '\n' ∉ (m.lead showType).toList := by
  rw [CommitMessage.lead]
  split
  · split <;> simp [h.type, h.scope]
  · split <;> simp [h.scope]

theorem LogEntry.IsOneLine.itemText {entry : LogEntry} (h : entry.IsOneLine) (showType : Bool) :
    '\n' ∉ entry.itemText showType := by
  have hissue := h.message.issue
  rw [LogEntry.itemText]
  cases hi : entry.message.issue? with
  | none => simp [h.message.lead, h.message.description, h.hash]
  | some issue => simp [h.message.lead, h.message.description, h.hash, hissue issue hi]

/-- What a rule calls for is on lines if the commits are. -/
theorem SectionRule.isOneLine_of_content? {rule : SectionRule} {part : NoteSection}
    (h : rule.content? entries = some part) (hname : '\n' ∉ rule.name.toList)
    (hentries : ∀ entry ∈ entries, entry.IsOneLine) : part.IsOneLine := by
  unfold content? at h
  cases hkind : rule.kind with
  | commits =>
    rw [hkind] at h
    obtain ⟨_, hitems, rfl⟩ := Option.map_eq_some_iff.1 h
    obtain ⟨rfl, -⟩ := unlessEmpty_eq_some.1 hitems
    refine ⟨hname, List.forall_mem_map.2 fun entry hentry => ?_⟩
    exact (hentries entry (List.mem_of_mem_filter hentry)).itemText _
  | breakingChanges =>
    rw [hkind] at h
    obtain ⟨_, hmessages, rfl⟩ := Option.map_eq_some_iff.1 h
    obtain ⟨rfl, -⟩ := unlessEmpty_eq_some.1 hmessages
    refine ⟨hname, List.forall_mem_map.2 (List.forall_mem_map.2 fun entry hentry => ?_)⟩
    cases hm : entry.message.breakingMessage? with
    | none => exact List.not_mem_nil
    | some value => exact (hentries entry (List.mem_of_mem_filter hentry)).message.breaking value hm

/-- A note on commits is on lines if they are. -/
theorem Outline.isOneLine_note {sections : List SectionRule} {outline : Outline}
    (h : ofSections sections = .ok outline) (hnames : ∀ rule ∈ sections, '\n' ∉ rule.name.toList)
    (hentries : ∀ entry ∈ entries, entry.IsOneLine) {tag : String} (htag : '\n' ∉ tag.toList)
    (version : Option Version) (date : Option Instant) :
    (outline.note version tag date entries).IsOneLine where
  tag := htag
  sections part hpart := by
    rw [sections_note h] at hpart
    obtain ⟨rule, hrule, hcontent⟩ := List.mem_filterMap.1 hpart
    exact SectionRule.isOneLine_of_content? hcontent (hnames rule hrule) hentries
  authors author hauthor := by
    obtain ⟨entry, hentry, rfl⟩ :=
      ((Gathered.holds_ofCommits outline entries).mem_authors author).1
        (List.mem_mergeSort.1 hauthor)
    exact (hentries entry hentry).author

/-- If the titles of the sections, the tag, and the subjects, hashes and authors of a log are on one
line each, the lines of its note that begin like a title are the titles of its sections, in order.
No line before the first title begins like a list item. Below each title there is such a line for
each commit of the section, or for each message of what breaks, in the order of the log. -/
theorem ReleaseWriter.listing_markdown {config : Config} {writer : ReleaseWriter}
    (h : ofConfig config = .ok writer) (hnames : ∀ rule ∈ config.sections, '\n' ∉ rule.name.toList)
    {log : List RawCommit} {entries : List LogEntry}
    (hlog : writer.convention.readLog log = .ok entries) (hlines : ∀ commit ∈ log,
      '\n' ∉ commit.subject.toList ∧ '\n' ∉ commit.hash.toList ∧ '\n' ∉ commit.author.toList)
    {tag : String} (htag : '\n' ∉ tag.toList) (version : Option Version) (date : Option Instant)
    (withAuthors : Bool) :
    ∃ note, writer.note version tag date log = .ok note ∧
      note.sections = config.sections.filterMap (·.content? entries) ∧
      ∀ lines, Text.splitAt '\n' (note.markdown withAuthors).toList = lines →
        lines.filterMap (Text.after? titleMark) = note.sections.map (·.name.toList) ∧
          lines.filterMap (Text.after? itemMark) = note.sections.flatMap (·.itemTexts) ∧
          listing lines =
            ([], note.sections.map fun part => (part.name.toList, part.itemTexts)) := by
  obtain ⟨convention, hconvention, h⟩ := bind_eq_ok.1 h
  obtain ⟨outline, houtline, h⟩ := bind_eq_ok.1 h
  cases h
  have hentries : ∀ entry ∈ entries, entry.IsOneLine := by
    intro entry hentry
    obtain ⟨commit, hcommit, hread⟩ := exists_of_mem_mapM hlog hentry
    obtain ⟨hsubject, hhash, hauthor⟩ := hlines commit hcommit
    exact Convention.isOneLine_of_readCommit hconvention hread hsubject hhash hauthor
  refine ⟨_, bind_eq_ok.2 ⟨entries, hlog, rfl⟩, Outline.sections_note houtline .., ?_⟩
  rintro _ rfl
  have hlisting := ReleaseNote.listing_markdown_of_isOneLine
    (Outline.isOneLine_note houtline hnames hentries htag version date) withAuthors
  refine ⟨?_, ?_, hlisting⟩
  · rw [← map_fst_listing, hlisting, List.map_map]
    rfl
  · rw [← flatMap_snd_listing, hlisting, List.flatMap_map]
    rfl

/-- A section for two types, and one for what breaks. -/
def twoSections : List SectionRule :=
  [{ name := "Changes", kind := .commits, commitTypes := ["feat", "fix"] },
    { name := "Notices", kind := .breakingChanges }]

/-- Commits that look like lists and titles: in a body, in a scope and a description, in what
breaks, and in a subject of no type. -/
def listLikeLog : List RawCommit :=
  [{ date := "", timestamp := 0, author := "bob", hash := "c1", subject := "feat(- a): - open"
     body := "- fake\n### fake\njira: AB-1" },
    { date := "", timestamp := 0, author := "ada", hash := "c2", subject := "fix!: close"
      body := "BREAKING CHANGE: ### closed\n- for good" },
    { date := "", timestamp := 0, author := "ada", hash := "c3", subject := "- none", body := "" }]

/-- Each commit of a listed type is on one list item, and so is what breaks. -/
theorem ReleaseWriter.listing_markdown_listLikeLog :
    ∃ writer entries note, ofConfig { sections := twoSections } = .ok writer ∧
      (∀ rule ∈ twoSections, '\n' ∉ rule.name.toList) ∧
      (∀ commit ∈ listLikeLog,
        '\n' ∉ commit.subject.toList ∧ '\n' ∉ commit.hash.toList ∧ '\n' ∉ commit.author.toList) ∧
      '\n' ∉ "v1".toList ∧ writer.convention.readLog listLikeLog = .ok entries ∧
      writer.note none "v1" none listLikeLog = .ok note ∧
      listing (Text.splitAt '\n' (note.markdown true).toList) =
        ([],
          [("Changes".toList,
            ["**feat(- a):** - open (c1) (AB-1)".toList, "**fix:** close (c2)".toList]),
          ("Notices".toList, ["### closed".toList])]) := by
  obtain ⟨writer, hwriter, htried⟩ := exists_of_any (x := ofConfig { sections := twoSections })
    (p := fun writer => (writer.convention.readLog listLikeLog).toOption.any fun entries =>
      (twoSections.filterMap (·.content? entries)).map
          (fun part => (part.name.toList, part.itemTexts)) =
        [("Changes".toList,
          ["**feat(- a):** - open (c1) (AB-1)".toList, "**fix:** close (c2)".toList]),
          ("Notices".toList, ["### closed".toList])]) (by decide +kernel)
  obtain ⟨entries, hlog, htried⟩ := exists_of_any htried
  have hnames : ∀ rule ∈ twoSections, '\n' ∉ rule.name.toList := by decide +kernel
  have hlines : ∀ commit ∈ listLikeLog,
      '\n' ∉ commit.subject.toList ∧ '\n' ∉ commit.hash.toList ∧ '\n' ∉ commit.author.toList := by
    decide +kernel
  have htag : '\n' ∉ "v1".toList := by decide +kernel
  obtain ⟨note, hnote, hsections, hread⟩ :=
    listing_markdown hwriter hnames hlog hlines htag none none true
  obtain ⟨-, -, hlisting⟩ := hread _ rfl
  rw [hsections, of_decide_eq_true htried] at hlisting
  exact ⟨writer, entries, note, hwriter, hnames, hlines, htag, hlog, hnote, hlisting⟩

end ConventionalRelease
