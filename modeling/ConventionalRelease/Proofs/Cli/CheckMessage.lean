import ConventionalRelease.Proofs.Commit.Completion
import ConventionalRelease.Proofs.Config.Search
import ConventionalRelease.Proofs.Config.Validation

/-!
# Checking the message in a file

The command reads a message, checks it and puts the line for the issue of the branch behind it.
Everything else stays as it is, and where there is nothing to put behind the message nothing
changes. A second run finds the line and changes nothing (`Cli.checked_spec`), nor does the same
command line, if the message is in no file of the configuration (`Cli.changes_run_again`).
-/

namespace ConventionalRelease

/-! ## Files that are written again -/

namespace FileTree

variable {tree : FileTree} {path : Path} {content : String}

/-- A file with another text is still in the way of what is below it, so written paths lead where
they led. -/
theorem descend_set (h : tree path = some (.file content)) (text : String) (start : Path)
    (names : List String) :
    (tree.set path (.file text)).descend start names = tree.descend start names := by
  induction names generalizing start with
  | nil => rfl
  | cons name rest ih =>
    rw [descend, descend, set]
    by_cases hstart : start = path
    · rw [if_pos hstart, hstart, h]
    · rw [if_neg hstart]
      cases tree start with
      | none => rfl
      | some entry =>
        cases entry with
        | directory => exact ih (start.enter name)
        | file _ => rfl

theorem follow_set (h : tree path = some (.file content)) (text : String) (directory : Path)
    (written : String) :
    (tree.set path (.file text)).follow directory written = tree.follow directory written :=
  descend_set h text _ _

/-- What is read is the text of the file that the written path leads to. -/
theorem read_eq_ok {directory : Path} {written : String} :
    tree.read directory written = .ok (path, content) ↔
    tree.follow directory written = .ok path ∧ tree path = some (.file content) := by
  rw [read, bind_eq_ok]
  constructor
  · rintro ⟨p, hfollow, h⟩
    split at h
    · cases h
    · cases h
    · next held hheld =>
      cases h
      exact ⟨hfollow, hheld⟩
  · rintro ⟨hfollow, hfile⟩
    exact ⟨path, hfollow, by rw [hfile]; rfl⟩

/-- A file that was read can be read again with the text that it got. -/
theorem read_set {directory : Path} {written : String}
    (h : tree.read directory written = .ok (path, content)) (text : String) :
    (tree.set path (.file text)).read directory written = .ok (path, text) := by
  obtain ⟨hfollow, hfile⟩ := read_eq_ok.1 h
  exact read_eq_ok.2 ⟨(follow_set hfile text directory written).trans hfollow, if_pos rfl⟩

/-- There is a file where there was one. -/
theorem isFile_set (h : tree path = some (.file content)) (text : String) (other : Path) :
    (tree.set path (.file text)).isFile other = tree.isFile other := by
  rw [isFile, isFile, set]
  by_cases hother : other = path
  · rw [if_pos hother, hother, h]
  · rw [if_neg hother]

/-- There is something where there was something. -/
theorem has_set (h : tree path = some (.file content)) (text : String) (other : Path) :
    (tree.set path (.file text)).has other = tree.has other := by
  rw [has, has, set]
  by_cases hother : other = path
  · rw [if_pos hother, hother, h]
    rfl
  · rw [if_neg hother]

/-- The other files keep their texts. -/
theorem text?_set_of_ne {other : Path} (hother : other ≠ path) (text : String) :
    (tree.set path (.file text)).text? other = tree.text? other := by
  rw [text?, text?, set, if_neg hother]

/-- The directories that can be gone to are the same. -/
theorem enter_set (h : tree path = some (.file content)) (text : String) (directory : Path)
    (written : String) :
    (tree.set path (.file text)).enter directory written = tree.enter directory written := by
  rw [enter, enter, follow_set h]
  refine bind_congr fun p => ?_
  rw [set]
  by_cases hp : p = path
  · rw [if_pos hp, hp, h]
  · rw [if_neg hp]

end FileTree

/-- No failure ends with the code of a success. -/
theorem Cause.exitCode_ne_zero (cause : Cause) : cause.exitCode ≠ 0 := by
  cases cause with
  | message e => cases e <;> simp [exitCode]
  | _ => simp [exitCode]

/-! ## The line for an issue -/

/-- A written line goes on behind its key if the prefix and the issue are on one line and the issue
is not made of number signs alone. -/
theorem FooterStyle.exists_written_eq_cons {style : FooterStyle} {issue : String}
    (hpre : '\n' ∉ style.valuePrefix.toList) (hline : '\n' ∉ issue.toList)
    (hissue : ∃ d ∈ issue.toList, d ≠ '#') :
    ∃ d rest, style.written issue = d :: rest ∧ d ≠ '\n' := by
  obtain ⟨d, hd, hsign⟩ := hissue
  have hvalue : d ∈ (style.withPrefix issue).toList ∧ '\n' ∉ (style.withPrefix issue).toList := by
    rw [withPrefix]
    split
    · exact ⟨hd, hline⟩
    · rw [String.toList_append, List.mem_append, List.mem_append, not_or]
      exact ⟨.inr hd, hpre, hline⟩
  have hwritten : d ∈ style.written issue ∧ '\n' ∉ style.written issue := by
    rw [written]
    generalize (style.withPrefix issue).toList = value at hvalue
    split
    · exact ⟨(List.mem_cons.1 hvalue.1).resolve_left hsign,
        fun h => hvalue.2 (List.mem_cons_of_mem '#' h)⟩
    · exact hvalue
  obtain ⟨hmem, hnone⟩ := hwritten
  cases h : style.written issue with
  | nil => exact absurd (h ▸ hmem) List.not_mem_nil
  | cons e rest =>
    refine ⟨e, rest, rfl, ?_⟩
    rintro rfl
    exact hnone (h ▸ List.mem_cons_self)

/-- A message with a written line behind it has the footer. -/
theorem IssueFooter.isPresent_withFooter {footer : IssueFooter}
    (hfooter : ofStyle footer.style = .ok footer) {issue : String}
    (hpre : '\n' ∉ footer.style.valuePrefix.toList) (hline : '\n' ∉ issue.toList)
    (hissue : ∃ d ∈ issue.toList, d ≠ '#') {message text : String} (hmessage : message ≠ "")
    (htext : text = footer.line issue ∨ text = "\n" ++ footer.line issue) :
    footer.isPresent (Cli.withFooter message text) = true := by
  obtain ⟨base, -, hwritten⟩ := Cli.exists_toList_withFooter hmessage text
  obtain ⟨d, rest, hcons, hd⟩ := footer.style.exists_written_eq_cons hpre hline hissue
  have hfront : ∃ front, text.toList = front ++ (footer.style.line issue).toList ∧
      (base ++ '\n' :: front).getLast?.all (· == '\n') = true := by
    rcases htext with rfl | rfl
    · exact ⟨[], rfl, by simp⟩
    · exact ⟨['\n'], by simp [line], by simp⟩
  obtain ⟨front, htext, hlast⟩ := hfront
  rw [isPresent_iff hfooter]
  refine ⟨base ++ '\n' :: front, d, rest ++ ['\n'], ?_, hlast, hd⟩
  rw [hwritten, htext, FooterStyle.toList_line, hcons]
  simp

/-- An issue id consists of characters of the branch name. -/
theorem Convention.mem_of_issueId? {c : Convention} {branch issue : String}
    (h : c.issueId? branch = some issue) {d : Char} (hd : d ∈ issue.toList) :
    d ∈ branch.toList := by
  obtain ⟨pattern, -, hid⟩ := Option.bind_eq_some_iff.1 h
  unfold issueIn? at hid
  split at hid
  · obtain ⟨found, hfound, hid⟩ := Option.bind_eq_some_iff.1 hid
    obtain ⟨id, hgroup, hid⟩ := Option.bind_eq_some_iff.1 hid
    cases hid
    rw [String.toList_ofList] at hd
    exact pattern.mem_of_group?_search hfound hgroup hd
  · cases hid

namespace Cli

variable {w : Workspace} {p : Project} {directory file : String} {source : Option String}

/-! ## One run -/

/-- What comes of checking the message in a file. -/
def checked (w : Workspace) (p : Project) (directory file : String) (source : Option String) :
    Outcome :=
  match checkMessage w p directory file source with
  | .ok reply => reply.outcome w
  | .error f => .ofFailure [] f

/-- The name of the branch that is checked out; empty without one. -/
def branchName (p : Project) : String :=
  p.repository.currentBranch.getD ""

/-- The message is passed over: the branch is skipped, or the message is from a merge. -/
def PassesOver (c : Convention) (p : Project) (source : Option String) : Prop :=
  c.skipsBranch (branchName p) p.repository.isDetached = true ∨ source = some uncheckedSource

/-- There is a message in the file, and it is accepted. -/
structure Accepts (c : Convention) (w : Workspace) (directory file : String) (path : Path)
    (message : String) :
    Prop where
  read : w.files.read w.directory (Path.joinText directory file) = .ok (path, message)
  valid : c.validate message = .ok ()

/-- What a run needs in order to complete a message with a text: the message is not passed over, it
is accepted, and the issue of the branch calls for the text. -/
structure Completes (c : Convention) (w : Workspace) (p : Project) (directory file : String)
    (source : Option String) (path : Path) (message text : String) :
    Prop extends Accepts c w directory file path message where
  looked : ¬ PassesOver c p source
  enhanced : c.enhance (branchName p) message = .ok text
  text_ne : text ≠ ""

/-- What is to be done to complete a message. -/
def completion (c : Convention) (branch : String) (path : Path) (message : String) : List Change :=
  match c.enhance branch message with
  | .error _ => []
  | .ok text => if text = "" then [] else [.write path (withFooter message text)]

/-- The ways that a run can go. -/
inductive Course (c : Convention) (w : Workspace) (p : Project) (directory file : String)
    (source : Option String) :
    Outcome → Prop
  /-- The message is passed over. -/
  | passed (h : PassesOver c p source) : Course c w p directory file source {}
  /-- The message is accepted, and completed if need be. -/
  | accepted {path : Path} {message : String} (hlooked : ¬ PassesOver c p source)
      (h : Accepts c w directory file path message) :
      Course c w p directory file source { changes := completion c (branchName p) path message }
  /-- There is no message, or it is refused. -/
  | refused (hlooked : ¬ PassesOver c p source)
      (h : ∀ path message, ¬ Accepts c w directory file path message)
      (f : Failure) : Course c w p directory file source (.ofFailure [] f)

section
variable (w directory file source)
variable {writer : ReleaseWriter} (hwriter : p.writer = .ok writer)
include hwriter

/-- A message that is passed over is not looked at. -/
theorem checkMessage_of_passesOver (h : PassesOver writer.convention p source) :
    checkMessage w p directory file source = .ok {} := by
  refine bind_eq_ok.2 ⟨writer, hwriter, ?_⟩
  dsimp only
  rw [if_pos (by simpa [PassesOver, branchName] using h)]
  rfl

/-- Another message is read, checked and completed. -/
theorem checkMessage_of_not_passesOver (h : ¬ PassesOver writer.convention p source) :
    checkMessage w p directory file source = (do
      let (path, message) ←
  Attempt.within ("failed to read commit message " ++ Path.joinText directory file)
        (.file (w.files.read w.directory (Path.joinText directory file)))
      Attempt.within "invalid commit message" (.message (writer.convention.validate message))
      return { changes := completion writer.convention (branchName p) path message }) := by
  rw [checkMessage, hwriter]
  refine (if_neg (by simpa [PassesOver, branchName] using h)).trans ?_
  unfold completion branchName
  congr 1
  funext ⟨path, message⟩
  dsimp only
  congr 1
  funext _
  cases writer.convention.enhance (p.repository.currentBranch.getD "") message with
  | error _ => rfl
  | ok text =>
    dsimp only
    split <;> rfl

/-- A run goes one of its ways. -/
theorem course_checked :
    Course writer.convention w p directory file source (checked w p directory file source) := by
  rw [checked]
  by_cases hpassed : PassesOver writer.convention p source
  · rw [checkMessage_of_passesOver w directory file source hwriter hpassed]
    exact .passed hpassed
  · rw [checkMessage_of_not_passesOver w directory file source hwriter hpassed]
    split
    · next reply hreply =>
      obtain ⟨⟨path, message⟩, hread, hreply⟩ := bind_eq_ok.1 hreply
      obtain ⟨_, hvalid, hreply⟩ := bind_eq_ok.1 hreply
      cases hreply
      exact .accepted hpassed ⟨mapError_eq_ok.1 (Attempt.within_eq_ok.1 hread),
        mapError_eq_ok.1 (Attempt.within_eq_ok.1 hvalid)⟩
    · next f hfailed =>
      refine .refused hpassed (fun path message h => ?_) f
      rw [h.read] at hfailed
      have hchecked :
          Attempt.within "invalid commit message" (.message (writer.convention.validate message)) =
            .ok () :=
        Attempt.within_eq_ok.2 (mapError_eq_ok.2 h.valid)
      rcases bind_eq_error.1 hfailed with hread | ⟨_, hread, hfailed⟩
      · cases hread
      · cases hread
        rcases bind_eq_error.1 hfailed with hrefused | ⟨_, -, hreturn⟩
        · rw [hchecked] at hrefused
          cases hrefused
        · cases hreturn

/-- A run writes the completed message, or nothing. -/
theorem changes_checked :
    (∃ path message text, Completes writer.convention w p directory file source path message text ∧
        (checked w p directory file source).changes = [.write path (withFooter message text)]) ∨
      ((checked w p directory file source).changes = [] ∧
        ∀ path message text,
          ¬ Completes writer.convention w p directory file source path message text) := by
  have hcourse := course_checked w directory file source hwriter
  generalize checked w p directory file source = outcome at hcourse
  cases hcourse with
  | passed hpassed => exact .inr ⟨rfl, fun _ _ _ h => h.looked hpassed⟩
  | refused hlooked hnone f =>
    exact .inr ⟨rfl, fun path message _ h => hnone path message h.toAccepts⟩
  | @accepted path message hlooked haccepts =>
    have hsame : ∀ {path' message' text},
        Completes writer.convention w p directory file source path' message' text →
        writer.convention.enhance (branchName p) message = .ok text := by
      intro path' message' text h
      cases haccepts.read.symm.trans h.read
      exact h.enhanced
    dsimp only
    rw [completion]
    cases henhance : writer.convention.enhance (branchName p) message with
    | error e => exact .inr ⟨rfl, fun _ _ _ h => by cases henhance.symm.trans (hsame h)⟩
    | ok text =>
      by_cases htext : text = ""
      · refine .inr ⟨if_pos htext, fun _ _ _ h => ?_⟩
        cases henhance.symm.trans (hsame h)
        exact h.text_ne htext
      · exact .inl ⟨path, message, text, ⟨haccepts, hlooked, henhance, htext⟩, if_neg htext⟩

/-- A run succeeds if the message is passed over or accepted, whatever comes of completing it. -/
theorem code_checked_eq_zero_iff :
    (checked w p directory file source).code = 0 ↔
      PassesOver writer.convention p source ∨
        ∃ path message, Accepts writer.convention w directory file path message := by
  have hcourse := course_checked w directory file source hwriter
  generalize checked w p directory file source = outcome at hcourse
  cases hcourse with
  | passed hpassed => exact iff_of_true rfl (.inl hpassed)
  | @accepted path message _ haccepts => exact iff_of_true rfl (.inr ⟨path, message, haccepts⟩)
  | refused hlooked hnone f =>
    refine iff_of_false (Cause.exitCode_ne_zero f.cause) ?_
    rintro (hpassed | ⟨path, message, haccepts⟩)
    · exact hlooked hpassed
    · exact hnone path message haccepts

end

/-! ## Another run -/

/-- A completed message is not completed again. -/
theorem not_completes_withFooter {c : Convention} (hc : Convention.ofConfig p.config = .ok c)
    (hpre : ∀ style, p.config.messages.issueStyle? = some style → '\n' ∉ style.valuePrefix.toList)
    (hbranch : '\n' ∉ (branchName p).toList)
    (hissue : ∀ issue, c.issueId? (branchName p) = some issue → ∃ d ∈ issue.toList, d ≠ '#')
    {path : Path} {message text : String}
    (h : Completes c w p directory file source path message text) {path' : Path}
    {message' text' : String} :
    ¬ Completes c { w with files := w.files.set path (.file (withFooter message text)) } p directory
      file source path'
      message' text' := by
  intro h'
  cases (FileTree.read_set h.read (withFooter message text)).symm.trans h'.read
  obtain ⟨footer, issue, hfooter, -, hid, htext⟩ := Convention.of_enhance h.enhanced h.text_ne
  obtain ⟨_, _, hfooter', habsent, -⟩ := Convention.of_enhance h'.enhanced h'.text_ne
  cases hfooter.symm.trans hfooter'
  obtain ⟨hstyle, hread⟩ := Convention.issueFooter_of_ofConfig hc
  rw [hfooter, Option.map_some] at hstyle
  have hline : '\n' ∉ issue.toList := fun hmem => hbranch (Convention.mem_of_issueId? hid hmem)
  have hpresent := IssueFooter.isPresent_withFooter (hread footer hfooter)
    (hpre _ hstyle.symm) hline (hissue issue hid)
    (Convention.ne_of_validate h.valid) htext
  exact Bool.false_ne_true (habsent.symm.trans hpresent)

/-- A configuration that has passed its check says how messages are written and notes made. -/
theorem exists_writer_of_config (hconfig : p.config.validate = .ok ()) :
    ∃ writer, p.writer = .ok writer ∧ Convention.ofConfig p.config = .ok writer.convention := by
  obtain ⟨⟨writer, hwriter⟩, -⟩ := Config.validate_eq_ok.1 hconfig
  obtain ⟨c, hc, h⟩ := bind_eq_ok.1 hwriter
  obtain ⟨outline, -, h⟩ := bind_eq_ok.1 h
  cases h
  exact ⟨_, mapError_eq_ok.2 hwriter, hc⟩

/-- After a run another one changes nothing. -/
theorem changes_checked_again (w : Workspace) (directory file : String) (source : Option String)
    {writer : ReleaseWriter} (hwriter : p.writer = .ok writer)
    (hc : Convention.ofConfig p.config = .ok writer.convention)
    (hpre : ∀ style, p.config.messages.issueStyle? = some style → '\n' ∉ style.valuePrefix.toList)
    (hbranch : '\n' ∉ (branchName p).toList)
    (hissue : ∀ issue, writer.convention.issueId? (branchName p) = some issue →
      ∃ d ∈ issue.toList, d ≠ '#') :
    (checked (w.applyAll (checked w p directory file source).changes) p directory file
      source).changes = [] := by
  rcases changes_checked w directory file source hwriter with
    ⟨path, message, text, h, hchanges⟩ | ⟨hchanges, -⟩
  · have hafter : w.applyAll (checked w p directory file source).changes =
        { w with files := w.files.set path (.file (withFooter message text)) } := by
      rw [hchanges]
      rfl
    rw [hafter]
    rcases changes_checked { w with files := w.files.set path (.file (withFooter message text)) }
      directory file
      source hwriter with ⟨path', message', text', h', -⟩ | ⟨hnil, -⟩
    · exact absurd h' (not_completes_withFooter hc hpre hbranch hissue h)
    · exact hnil
  · have hsame : w.applyAll (checked w p directory file source).changes = w := by
      rw [hchanges]
      rfl
    rw [hsame, hchanges]

/-- The command line for checking a message comes to what comes of checking it. -/
theorem run_eq_checked {args : List String} {settings : Settings} {w' : Workspace}
    {files : List Path}
    (hargs : Invocation.read? args =
      some ⟨settings, .project (.checkMessage directory file source)⟩)
    (henter : enter w settings = .ok w') (hconfig : w'.config = .ok (p.config, files))
    (hrepository : w'.repository = .ok p.repository) :
    run w args = checked w' p directory file source := by
  have hhere : runHere w' settings (.project (.checkMessage directory file source)) =
      checkMessage w' p directory file source := by
    rw [runHere, hconfig]
    change (w'.repository >>= fun repository =>
      runInProject w' settings { config := p.config, repository }
        (.checkMessage directory file source)) = _
    rw [hrepository]
    rfl
  rw [run, hargs, checked]
  dsimp only
  cases hresult : checkMessage w' p directory file source with
  | ok reply =>
    have hattempt : (do
        let w ← enter w settings
        return (← runHere w settings (.project (.checkMessage directory file source))).outcome w) =
          .ok (reply.outcome w') :=
      bind_eq_ok.2 ⟨w', henter, bind_eq_ok.2 ⟨reply, hhere.trans hresult, rfl⟩⟩
    rw [hattempt]
  | error f =>
    have hattempt : (do
        let w ← enter w settings
        return (← runHere w settings (.project (.checkMessage directory file source))).outcome w) =
          .error f :=
      bind_eq_error.2 (.inr ⟨w', henter, bind_eq_error.2 (.inl (hhere.trans hresult))⟩)
    rw [hattempt]

/-- What the command for checking a message does with a configuration that has passed its check. A
message that is completed is followed by the text for the issue, on a line of its own, and nothing
else changes; without a message that is to be completed nothing changes at all. Whether the command
succeeds does not depend on what comes of completing the message. After a run another one changes
nothing, if the prefix of the value and the name of the branch are on one line and the issue is not
made of number signs alone. -/
theorem checked_spec (hconfig : p.config.validate = .ok ()) :
    ∃ c, Convention.ofConfig p.config = .ok c ∧
      ∀ (w : Workspace) (directory file : String) (source : Option String),
        (∀ args settings files outside,
          Invocation.read? args = some ⟨settings, .project (.checkMessage directory file source)⟩ →
          enter outside settings = .ok w → w.config = .ok (p.config, files) →
            w.repository = .ok p.repository →
          run outside args = checked w p directory file source) ∧
        (∀ path message text, Completes c w p directory file source path message text →
          w.applyAll (checked w p directory file source).changes =
            { w with files := w.files.set path (.file (message ++
              (if message = "" ∨ message.toList.getLast? = some '\n' then "" else "\n") ++
                text ++ "\n")) }) ∧
        ((∀ path message text, ¬ Completes c w p directory file source path message text) →
          w.applyAll (checked w p directory file source).changes = w) ∧
        ((checked w p directory file source).code = 0 ↔
          PassesOver c p source ∨ ∃ path message, Accepts c w directory file path message) ∧
        ((∀ style, p.config.messages.issueStyle? = some style → '\n' ∉ style.valuePrefix.toList) →
          '\n' ∉ (branchName p).toList →
          (∀ issue, c.issueId? (branchName p) = some issue → ∃ d ∈ issue.toList, d ≠ '#') →
          (checked (w.applyAll (checked w p directory file source).changes) p directory file
            source).changes = []) := by
  obtain ⟨writer, hproject, hc⟩ := exists_writer_of_config hconfig
  refine ⟨writer.convention, hc, fun w directory file source =>
    ⟨fun _ _ _ _ => run_eq_checked, fun path message text h => ?_, fun hnone => ?_,
      code_checked_eq_zero_iff w directory file source hproject, fun hpre hbranch hissue => ?_⟩⟩
  · rcases changes_checked w directory file source hproject with
      ⟨path', message', text', h', hchanges⟩ | ⟨-, hnone⟩
    · cases h.read.symm.trans h'.read
      cases h.enhanced.symm.trans h'.enhanced
      rw [hchanges, withFooter]
      simp only [Bool.or_eq_true, decide_eq_true_eq]
      rfl
    · exact absurd h (hnone path message text)
  · rcases changes_checked w directory file source hproject with
      ⟨path, message, text, h, -⟩ | ⟨hchanges, -⟩
    · exact absurd h (hnone path message text)
    · rw [hchanges]
      rfl
  · exact changes_checked_again w directory file source hproject hc hpre hbranch hissue

/-! ## The same command line again -/

section
variable {path : Path} {content : String}

/-- What is gone to has the files that there are. -/
theorem files_of_enter {outside : Workspace} {settings : Settings}
    (h : enter outside settings = .ok w) : w.files = outside.files := by
  unfold enter at h
  split at h
  · cases h
    rfl
  · obtain ⟨_, -, hret⟩ := bind_eq_ok.1 h
    cases hret
    rfl

/-- Where a file has got another text, the same directory is gone to. -/
theorem enter_write {outside : Workspace} {settings : Settings} (h : enter outside settings = .ok w)
    (hfile : outside.files path = some (.file content)) (text : String) :
    enter (outside.apply (.write path text)) settings = .ok (w.apply (.write path text)) := by
  unfold enter at h ⊢
  split at h
  · cases h
    rfl
  · obtain ⟨directory, hdirectory, hret⟩ := bind_eq_ok.1 h
    cases hret
    refine bind_eq_ok.2 ⟨directory, ?_, rfl⟩
    rw [← hdirectory]
    exact congrArg _ (congrArg _ (FileTree.enter_set hfile text _ _))

/-- A file that is none of those of the configuration has no say in it. -/
theorem config_write {config : Config} {files : List Path} (h : w.config = .ok (config, files))
    (hfile : w.files path = some (.file content)) (hpath : path ∉ files) (text : String) :
    (w.apply (.write path text)).config = .ok (config, files) := by
  have hlayers := (of_effectiveConfig (mapError_eq_ok.1 h)).1
  rw [← h]
  refine congrArg Attempt.config
    (effectiveConfig_congr (FileTree.isFile_set hfile text) fun other hother => ?_)
  refine FileTree.text?_set_of_ne ?_ text
  rintro rfl
  exact hpath (hlayers ▸ hother)

/-- What files hold has no say in which repository it is. -/
theorem repository_write (hfile : w.files path = some (.file content)) (text : String) :
    (w.apply (.write path text)).repository = w.repository := by
  have hdiscover : Checkout.discover w.checkout (w.files.set path (.file text)) w.directory =
      Checkout.discover w.checkout w.files w.directory := by
    unfold Checkout.discover
    rw [FileTree.has_set hfile]
  exact congrArg (fun found => Attempt.history (Checkout.repository <$> found)) hdiscover

/-- After the command for checking a message the same command line changes nothing, if the message
is in no file of the configuration, the prefix of the value and the name of the branch are on one
line, and the issue is not made of number signs alone. -/
theorem changes_run_again {outside : Workspace} {args : List String} {settings : Settings}
    {files : List Path}
    (hargs : Invocation.read? args =
      some ⟨settings, .project (.checkMessage directory file source)⟩)
    (henter : enter outside settings = .ok w) (hconfig : w.config = .ok (p.config, files))
    (hrepository : w.repository = .ok p.repository)
    (hmessage : ∀ path message,
      w.files.read w.directory (Path.joinText directory file) = .ok (path, message) → path ∉ files)
    (hpre : ∀ style, p.config.messages.issueStyle? = some style → '\n' ∉ style.valuePrefix.toList)
    (hbranch : '\n' ∉ (branchName p).toList)
    (hissue : ∀ c issue, Convention.ofConfig p.config = .ok c →
      c.issueId? (branchName p) = some issue → ∃ d ∈ issue.toList, d ≠ '#') :
    (run (outside.applyAll (run outside args).changes) args).changes = [] := by
  obtain ⟨-, hload⟩ := of_effectiveConfig (mapError_eq_ok.1 hconfig)
  obtain ⟨writer, hwriter, hc⟩ := exists_writer_of_config (Config.validate_of_ofLayers hload)
  have hagain := changes_checked_again w directory file source hwriter hc hpre hbranch fun issue =>
    hissue _ issue hc
  have hrun := run_eq_checked hargs henter hconfig hrepository
  rcases changes_checked w directory file source hwriter with
    ⟨path, message, text, hcompletes, hchanges⟩ | ⟨hchanges, -⟩
  · have hfile := (FileTree.read_eq_ok.1 hcompletes.read).2
    have hrun' := run_eq_checked hargs
      (enter_write henter (files_of_enter henter ▸ hfile) (withFooter message text))
      (config_write hconfig hfile (hmessage path message hcompletes.read) _)
      ((repository_write hfile _).trans hrepository)
    rw [hchanges] at hagain
    rw [hrun, hchanges]
    exact (congrArg Outcome.changes hrun').trans hagain
  · rw [hrun, hchanges]
    exact (congrArg Outcome.changes hrun).trans hchanges

end

/-- A place to work on a branch that is named for an issue, with a message that is about to be
checked. -/
def issueBranch : Workspace where
  files := (FileTree.empty.makeDirectory ["repo", ".git"]).set ["repo", ".git", "COMMIT_EDITMSG"]
    (.file "feat: add x")
  checkout := some { root := ["repo"], repository := { head := .branch "feature/JIRA-42" } }
  directory := ["repo"]
  now := { seconds := 0 }

/-- The message gets a footer when it is checked, and no other one when it is checked again. -/
theorem checked_issueBranch :
    Config.validate {} = .ok () ∧
      run issueBranch ["validate-commit-message"] =
        checked issueBranch ⟨{}, { head := .branch "feature/JIRA-42" }⟩ ".git"
          "COMMIT_EDITMSG" none ∧
      (issueBranch.applyAll (run issueBranch ["validate-commit-message"]).changes).files
        ["repo", ".git", "COMMIT_EDITMSG"] = some (.file "feat: add x\n\njira: JIRA-42\n") ∧
      (checked (issueBranch.applyAll (run issueBranch ["validate-commit-message"]).changes)
        ⟨{}, { head := .branch "feature/JIRA-42" }⟩ ".git" "COMMIT_EDITMSG" none).changes = [] := by
  have hconfig : Config.validate {} = .ok () := by decide +kernel
  obtain ⟨c, hc, hspec⟩ := checked_spec (p := ⟨{}, { head := .branch "feature/JIRA-42" }⟩) hconfig
  obtain ⟨hrun, hwritten, -, -, hagain⟩ := hspec issueBranch ".git" "COMMIT_EDITMSG" none
  have hargs : Invocation.read? ["validate-commit-message"] =
    some ⟨{}, .project (.checkMessage ".git" "COMMIT_EDITMSG" none)⟩ := by decide +kernel
  have hloaded : issueBranch.config = .ok ({}, []) := by decide +kernel
  have hrun := hrun ["validate-commit-message"] {} [] issueBranch hargs rfl hloaded rfl
  obtain ⟨c', hc', htried⟩ := exists_of_any (x := Convention.ofConfig {})
    (p := fun c => !c.skipsBranch "feature/JIRA-42" false && c.validate "feat: add x" == .ok () &&
      c.enhance "feature/JIRA-42" "feat: add x" == .ok "\njira: JIRA-42" &&
      c.issueId? "feature/JIRA-42" == some "JIRA-42") (by decide +kernel)
  cases hc.symm.trans hc'
  simp only [Bool.and_eq_true, Bool.not_eq_true', beq_iff_eq] at htried
  obtain ⟨⟨⟨hbranch, hvalid⟩, henhanced⟩, hissue⟩ := htried
  have hlooked : ¬ PassesOver c ⟨{}, { head := .branch "feature/JIRA-42" }⟩ none := by
    rintro (hskipped | hmerge)
    · cases hbranch.symm.trans hskipped
    · cases hmerge
  have hread :
      issueBranch.files.read issueBranch.directory (Path.joinText ".git" "COMMIT_EDITMSG") =
      .ok (["repo", ".git", "COMMIT_EDITMSG"], "feat: add x") := by decide +kernel
  have hwritten := hwritten _ _ _ ⟨⟨hread, hvalid⟩, hlooked, henhanced, by decide⟩
  rw [← hrun] at hwritten hagain
  refine ⟨hconfig, hrun, by rw [hwritten]; decide, hagain ?_ (by decide) ?_⟩
  · intro style hstyle
    cases hstyle.symm.trans
      (rfl : MessageRules.issueStyle? {} = some { key := "jira", synonyms := ["Jira", "JIRA"] })
    decide
  · intro issue hid
    cases hid.symm.trans hissue
    exact ⟨'J', by decide, by decide⟩

end Cli

end ConventionalRelease
