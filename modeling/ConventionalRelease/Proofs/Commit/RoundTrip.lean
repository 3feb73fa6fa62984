import ConventionalRelease.Proofs.Commit.Check
import ConventionalRelease.Proofs.Commit.FooterLines

/-!
# Messages written and read again

With the default configuration a message that was taken apart is written, and what is written is
taken apart again. The type, the scope, the description and the issue are the same, and so is what
breaks, but for a mark that no footer takes the place of (`Convention.parse_format`).
-/

namespace ConventionalRelease

namespace Convention

variable {c : Convention}

/-! ## The header -/

/-- A written header says what was read, but for the mark. -/
theorem ofHeader_format {subject : String} {m : CommitMessage}
    (htype : m.type = (ofHeader subject "").type) (hscope : m.scope = (ofHeader subject "").scope)
    (hdescription : m.description = (ofHeader subject "").description) (hne : m.type ≠ "") :
    ofHeader (c.format m).header "" = { ofHeader subject "" with breaking := false } := by
  obtain ⟨h, hparse⟩ := parse?_of_type_ne (htype ▸ hne)
  obtain ⟨htype', hscope', hdescription', -⟩ := ofHeader_of_parse? hparse
  obtain ⟨_, hproper, -⟩ := Header.parse?_eq_some_iff.1 hparse
  have hwritten :
      Header.IsProper ⟨h.type, h.scope, false, Text.trim h.description⟩ (h.scope ≠ []) :=
    { hproper with
      scope_eq_nil := fun hnil => by simpa using hnil
      description_line :=
        fun hmem => hproper.description_line ((Text.dropAround_infix _).subset hmem) }
  have hheader :
      (c.format m).header.toList = Header.lead ⟨h.type, h.scope, false, Text.trim h.description⟩
      (h.scope ≠ []) ++ Text.trim h.description := by
    rw [format, htype, hscope, hdescription, htype', hscope', hdescription']
    by_cases hnil : h.scope = [] <;> simp [Header.lead, hnil]
  have hsubject : ofHeader subject "" =
      ⟨String.ofList h.type, String.ofList h.scope, String.ofList (Text.trim h.description), "",
        h.marked, ∅⟩ := by
    rw [ofHeader, hparse]
  rw [hsubject, ofHeader, hheader, Header.parse?_lead_append hwritten]
  have htrim : Text.trim (Text.trim h.description) = Text.trim h.description :=
    Text.dropAround_dropAround _
  simp only [htrim]

/-! ## The footers -/

/-- The written footers are the line for what breaks, if something is said of it, and the line for
the issue. -/
theorem toList_format_footer {footer : IssueFooter} (hfooter : c.issueFooter = some footer)
    (m : CommitMessage) :
    (c.format m).footer.toList = Text.join ['\n']
      ((m.breakingMessage?.filter (· ≠ "")).toList.map (footerLead breakingKey false ++ ·.toList) ++
        m.issue?.toList.map
          (footerLead footer.style.key footer.style.useHash ++ footer.style.written ·)) := by
  have hbreaking : ∀ value,
      (breakingKey ++ ": " ++ value).toList = footerLead breakingKey false ++ value.toList := by
    intro value
    simp [footerLead, footerSeparator, footerMark]
  have hissue : ∀ issue, (footer.line issue).toList =
      footerLead footer.style.key footer.style.useHash ++ footer.style.written issue :=
    footer.style.toList_line
  have hline : "\n".toList = ['\n'] := rfl
  rw [format, hfooter]
  dsimp only
  rw [String.toList_intercalate, hline]
  cases m.breakingMessage? with
  | none => cases m.issue? <;> simp [Text.join, hissue]
  | some value =>
    rw [Option.filter_some]
    by_cases hempty : value = ""
    · cases m.issue? <;> simp [Text.join, hissue, hempty]
    · cases m.issue? <;> simp [Text.join, hissue, hbreaking, hempty]

/-- The lines that stand behind the body that is written, as they are read: one for what breaks, if
something is said of it, and one for the issue. -/
def footerLines (style : FooterStyle) (m : CommitMessage) : List (List Char) :=
  (m.breakingMessage?.filter (· ≠ "")).toList.map (footerLead breakingKey false ++ bodyText ·) ++
    m.issue?.toList.map fun issue =>
      footerLead style.key style.useHash ++ Text.dropReturns (style.written issue)

/-- What is read of a written message behind its header. -/
theorem bodyText_format {footer : IssueFooter} (hfooter : c.issueFooter = some footer)
    (hkey : '\r' ∉ footer.style.key.toList) (m : CommitMessage) :
    bodyText ((c.format m).body ++ "\n" ++ (c.format m).footer) =
      bodyText m.body ++ '\n' :: Text.join ['\n'] (footerLines footer.style m) := by
  have hlead : ∀ {key useHash}, '\r' ∉ key.toList → ∀ s,
      Text.dropReturns (footerLead key useHash ++ s) =
        footerLead key useHash ++ Text.dropReturns s := by
    intro key useHash hreturn s
    rw [Text.dropReturns_append,
      Text.dropReturns_of_not_mem (not_mem_footerLead hreturn (by decide) (by decide) (by decide))]
  have hbreaking : '\r' ∉ breakingKey.toList := by decide
  have hlines :
      (((m.breakingMessage?.filter (· ≠ "")).toList.map
          (footerLead breakingKey false ++ ·.toList) ++
        m.issue?.toList.map
          (footerLead footer.style.key footer.style.useHash ++ footer.style.written ·)).map
        Text.dropReturns) = footerLines footer.style m := by
    simp only [List.map_append, List.map_map, Function.comp_def, hlead hbreaking, hlead hkey]
    rfl
  rw [bodyText, String.toList_append, String.toList_append, toList_format_footer hfooter,
    Text.dropReturns_append, Text.dropReturns_append, Text.dropReturns_join, hlines,
    List.append_assoc]
  rfl

/-! ## The default configuration -/

/-- The issue footer that is there unless another one is configured. -/
def jiraStyle : FooterStyle := { key := "jira", synonyms := ["Jira", "JIRA"] }

/-- The default configuration looks for the issue under the keys of the default footer, for what
breaks under none, and for the header in the whole subject. -/
theorem default_spec (h : ofConfig {} = .ok c) :
    (∃ footer, c.issueFooter = some footer ∧ footer.style = jiraStyle) ∧
      ∀ subject, c.header subject = .ok subject := by
  have hstyle := (issueFooter_of_ofConfig h).1
  have hselector : c.selector = none := (Except.ok.inj (ofConfig_spec h).1).symm
  refine ⟨?_, fun subject => by rw [Convention.header, hselector]⟩
  have hjira : MessageRules.issueStyle? {} = some jiraStyle := rfl
  rw [hjira] at hstyle
  exact Option.map_eq_some_iff.1 hstyle

/-- What a message says of a change that breaks something stands on one line, and carriage returns
are not all of it. -/
theorem of_breakingMessage? (h : ofConfig {} = .ok c) {subject body value : String}
    {m : CommitMessage} (hm : c.parse subject body = .ok m) (htype : m.type ≠ "")
    (hvalue : m.breakingMessage? = some value) :
    '\n' ∉ value.toList ∧ (value ≠ "" → bodyText value ≠ []) := by
  obtain ⟨header, -, htype', -, -, -, hbreaking, -⟩ := parse_spec h hm
  have hnone : MessageRules.valueIn? {} breakingName (bodyText body) = none := rfl
  rw [hvalue, breakingText?, hnone] at hbreaking
  rcases Option.or_eq_some_iff.1 hbreaking.symm with hfound | ⟨-, hmarked⟩
  · obtain ⟨hne, hmem⟩ := of_footerIn? hfound
    have hmem : ∀ d ∈ value.toList, d ∈ bodyText body ∧ d ≠ '\n' := fun d hd =>
      (hmem d hd).resolve_left List.not_mem_nil
    have hwhole : bodyText value = value.toList :=
      Text.dropReturns_of_not_mem fun hreturn => Text.not_mem_dropReturns _ (hmem _ hreturn).1
    rw [hwhole]
    exact ⟨fun hline => (hmem _ hline).2 rfl, fun _ hnil => hne (String.toList_inj.1 hnil)⟩
  · obtain ⟨hd, hparse⟩ := parse?_of_type_ne (htype' ▸ htype)
    obtain ⟨-, -, hdescription, -⟩ := ofHeader_of_parse? hparse
    obtain ⟨_, hproper, -⟩ := Header.parse?_eq_some_iff.1 hparse
    have hvalue : value = String.ofList (Text.trim hd.description) := by
      split at hmarked
      · exact (Option.some.inj hmarked).symm.trans hdescription
      · cases hmarked
    rw [hvalue, bodyText, String.toList_ofList]
    refine ⟨fun hmem => hproper.description_line ((Text.dropAround_infix _).subset hmem),
      fun hne hnil => hne ?_⟩
    have hstops : Text.stops Text.isBlank (Text.trim hd.description) = true :=
      Text.stops_dropAround _
    cases htrim : Text.trim hd.description with
    | nil => rfl
    | cons d rest =>
      rw [htrim, Text.stops_cons, Bool.not_eq_true'] at hstops
      have hreturn : d ≠ '\r' := by
        rintro rfl
        exact absurd hstops (by decide)
      rw [htrim, Text.dropReturns, List.filter_cons_of_pos (by simpa using hreturn)] at hnil
      cases hnil

/-- Behind the body the written footers are found: what breaks, and the issue under the written key
alone. -/
theorem lineAfter?_footerLines {m : CommitMessage}
    (hbreaking : ∀ value, m.breakingMessage? = some value → '\n' ∉ value.toList)
    (hissue : ∀ issue, m.issue? = some issue → '\n' ∉ issue.toList) :
    Text.lineAfter? (footerLead breakingKey false) true
      (Text.join ['\n'] (footerLines jiraStyle m)) =
        (m.breakingMessage?.filter (· ≠ "")).map bodyText ∧
      Text.lineAfter? (footerLead jiraStyle.key false) true
        (Text.join ['\n'] (footerLines jiraStyle m)) =
        m.issue?.map bodyText ∧
      ∀ key ∈ jiraStyle.synonyms,
        Text.lineAfter? (footerLead key false) true (Text.join ['\n'] (footerLines jiraStyle m)) =
          none := by
  have hwritten : ∀ issue : String, Text.dropReturns (jiraStyle.written issue) = bodyText issue :=
    fun _ => rfl
  have hdrop : ∀ {text : String}, '\n' ∉ text.toList → '\n' ∉ bodyText text := fun h hmem =>
    h (List.mem_of_mem_filter hmem)
  have hlines : ∀ line ∈ footerLines jiraStyle m, '\n' ∉ line := by
    intro line hline
    rcases List.mem_append.1 hline with hline | hline
    · obtain ⟨value, hvalue, rfl⟩ := List.mem_map.1 hline
      have hvalue := (Option.filter_eq_some_iff.1 (Option.mem_toList.1 hvalue)).1
      rw [List.mem_append, not_or]
      exact ⟨by decide, hdrop (hbreaking value hvalue)⟩
    · obtain ⟨issue, hsome, rfl⟩ := List.mem_map.1 hline
      rw [List.mem_append, not_or]
      exact ⟨by decide, hdrop (hissue issue (Option.mem_toList.1 hsome))⟩
  have hfind : ∀ key, '\n' ∉ key.toList →
      Text.lineAfter? (footerLead key false) true (Text.join ['\n'] (footerLines jiraStyle m)) =
        (footerLines jiraStyle m).findSome? (Text.after? (footerLead key false)) := by
    intro key hkey
    have hlead : '\n' ∉ footerLead key false :=
      not_mem_footerLead hkey (by decide) (by decide) (by decide)
    exact Text.lineAfter?_join hlead (footerLead_ne_nil key false) hlines
  refine ⟨?_, ?_, ?_⟩
  · rw [hfind breakingKey (by decide), footerLines, List.findSome?_append,
      Text.findSome?_after?_map, Text.findSome?_after?_map_of_none _ (fun _ => rfl), Option.or_none]
  · rw [hfind jiraStyle.key (by decide), footerLines, List.findSome?_append,
      Text.findSome?_after?_map_of_none _ (fun _ => rfl), Option.none_or]
    exact Text.findSome?_after?_map _ _ _
  · intro key hkey
    have hkey : key = "Jira" ∨ key = "JIRA" := by simpa [jiraStyle] using hkey
    rcases hkey with rfl | rfl
    all_goals
      rw [hfind _ (by decide), footerLines, List.findSome?_append,
        Text.findSome?_after?_map_of_none _ (fun _ => rfl),
        Text.findSome?_after?_map_of_none _ (fun _ => rfl)]
      rfl

/-- What the footers of a text say when the written footers stand behind it. -/
theorem footers_append_footerLines {m : CommitMessage} {text : List Char} (hreturn : '\r' ∉ text)
    (hissue : m.issue? = jiraStyle.valueIn? text)
    (hbreaking : ∀ value, m.breakingMessage? = some value → '\n' ∉ value.toList ∧
      (value ≠ "" → bodyText value ≠ [])) :
    jiraStyle.valueIn? (text ++ '\n' :: Text.join ['\n'] (footerLines jiraStyle m)) = m.issue? ∧
      breakingIn? (text ++ '\n' :: Text.join ['\n'] (footerLines jiraStyle m)) =
        if (Text.lineAfter? (footerLead breakingKey false) true text).isSome then breakingIn? text
        else (m.breakingMessage?.filter (· ≠ "")).map fun value =>
          String.ofList (bodyText value) := by
  have hfound : ∀ issue, m.issue? = some issue → '\n' ∉ issue.toList ∧ issue ≠ "" ∧
      bodyText issue = issue.toList := by
    intro issue hsome
    obtain ⟨hne, hmem⟩ := FooterStyle.of_valueIn? (hissue.symm.trans hsome)
    have hmem : ∀ d ∈ issue.toList, d ∈ text ∧ d ≠ '\n' :=
      fun d hd => (hmem d hd).resolve_left List.not_mem_nil
    exact ⟨fun hline => (hmem _ hline).2 rfl, hne, Text.dropReturns_of_not_mem fun hmem' =>
      hreturn (hmem _ hmem').1⟩
  obtain ⟨hbreaks, hkey, hsynonyms⟩ :=
    lineAfter?_footerLines (m := m) (fun value hvalue => (hbreaking value hvalue).1)
    fun issue hsome => (hfound issue hsome).1
  constructor
  · have hwritten :
        footerIn? jiraStyle.key jiraStyle.useHash (Text.join ['\n'] (footerLines jiraStyle m)) =
          m.issue? := by
      cases hsome : m.issue? with
      | none =>
        rw [hsome] at hkey
        exact footerIn?_of_none hkey
      | some issue =>
        obtain ⟨-, hne, hsame⟩ := hfound issue hsome
        rw [hsome, Option.map_some, hsame] at hkey
        have hvalue : footerMark false ++ issue.toList ≠ [] :=
          fun hnil => hne (String.toList_inj.1 hnil)
        refine (footerIn?_of_some hkey).trans ?_
        rw [if_neg hvalue]
        exact congrArg some String.ofList_toList
    have hkeys : ∀ key ∈ jiraStyle.keys, '\n' ∉ key.toList := by decide
    rw [hissue]
    exact FooterStyle.valueIn?_append hkeys (hwritten.trans hissue) fun key hmem =>
      footerIn?_of_none (hsynonyms key hmem)
  · rw [breakingIn?, footerIn?_append (by decide)]
    split
    · rfl
    · cases hsaid : m.breakingMessage?.filter (· ≠ "") with
      | none =>
        rw [hsaid] at hbreaks
        exact footerIn?_of_none hbreaks
      | some value =>
        obtain ⟨hsome, hne⟩ := Option.filter_eq_some_iff.1 hsaid
        rw [hsaid, Option.map_some] at hbreaks
        rw [footerIn?_of_some hbreaks, if_neg]
        · rfl
        · exact (hbreaking value hsome).2 (of_decide_eq_true hne)

/-- Of a written message everything is read again, but what breaks may have a line of its own in the
body already. -/
theorem parse_format_spec (h : ofConfig {} = .ok c) {subject body : String} {first : CommitMessage}
    (hfirst : c.parse subject body = .ok first) (htype : first.type ≠ "") :
    ∃ second, c.parse (c.format first).header
      ((c.format first).body ++ "\n" ++ (c.format first).footer) = .ok second ∧
      second.type = first.type ∧ second.scope = first.scope ∧
        second.description = first.description ∧
      second.issue? = first.issue? ∧ second.breaking = second.breakingMessage?.isSome ∧
      second.breakingMessage? =
        if (Text.lineAfter? (footerLead breakingKey false) true (bodyText body)).isSome then
          breakingIn? (bodyText body)
        else (first.breakingMessage?.filter (· ≠ "")).map fun value =>
          String.ofList (bodyText value) := by
  obtain ⟨⟨footer, hfooter, hstyle⟩, hwhole⟩ := default_spec h
  obtain ⟨second, hsecond⟩ := exists_parse (hwhole (c.format first).header)
    ((c.format first).body ++ "\n" ++ (c.format first).footer)
  obtain ⟨_, hheader, htype₁, hscope₁, hdescription₁, -, -, hissue₁⟩ := parse_spec h hfirst
  cases (hwhole subject).symm.trans hheader
  obtain ⟨_, hheader, htype₂, hscope₂, hdescription₂, hbreaks₂, hbreaking₂, hissue₂⟩ :=
    parse_spec h hsecond
  cases (hwhole _).symm.trans hheader
  rw [ofHeader_format htype₁ hscope₁ hdescription₁ htype]
    at htype₂ hscope₂ hdescription₂ hbreaks₂ hbreaking₂
  have hreturn : '\r' ∉ bodyText body := Text.not_mem_dropReturns body.toList
  obtain ⟨_, -, -, -, -, hbody⟩ := of_parse hfirst
  have htext : bodyText ((c.format first).body ++ "\n" ++ (c.format first).footer) =
      bodyText body ++ '\n' :: Text.join ['\n'] (footerLines jiraStyle first) := by
    rw [bodyText_format hfooter (by rw [hstyle]; decide), hstyle, hbody, bodyText,
      String.toList_ofList, Text.dropReturns_of_not_mem hreturn]
  obtain ⟨hissue, hbreaking⟩ := footers_append_footerLines hreturn hissue₁ fun _ =>
    of_breakingMessage? h hfirst htype
  have hnone : MessageRules.valueIn? {} breakingName (bodyText body ++ '\n' ::
      Text.join ['\n'] (footerLines jiraStyle first)) = none := rfl
  rw [htext, saysBreaking, Bool.false_or] at hbreaks₂
  rw [htext, breakingText?, hnone, if_neg Bool.false_ne_true, Option.or_none] at hbreaking₂
  rw [htext] at hissue₂
  exact ⟨second, hsecond, htype₂.trans htype₁.symm, hscope₂.trans hscope₁.symm,
    hdescription₂.trans hdescription₁.symm, hissue₂.trans hissue, by
      rw [hbreaks₂, hbreaking₂], hbreaking₂.trans hbreaking⟩

/-- Writing a message loses that something breaks: its header is marked, and the first line that
tells what breaks says nothing, or there is no such line and the description says nothing. -/
def LosesMark (header : CommitMessage) (body : List Char) : Prop :=
  header.breaking = true ∧ (Text.lineAfter? (footerLead breakingKey false) true body = some [] ∨
    Text.lineAfter? (footerLead breakingKey false) true body = none ∧ header.description = "")

/-- What breaks is said again unless it is lost: in the line that the text has for it, or in the
written one. -/
theorem saidAgain_iff {header : CommitMessage} {text : List Char} (hreturn : '\r' ∉ text)
    {said again : Option String}
    (hsaid :
      said = (breakingIn? text).or (if header.breaking then some header.description else none))
    (hagain : again = if (Text.lineAfter? (footerLead breakingKey false) true text).isSome then
      breakingIn? text
      else (said.filter (· ≠ "")).map fun value => String.ofList (bodyText value)) :
    (again.isSome = (header.breaking || (breakingIn? text).isSome) ∧
        again = said.map (fun value => String.ofList (bodyText value)) ↔ ¬ LosesMark header text) ∧
      (LosesMark header text → again = none) := by
  rw [LosesMark]
  cases hline : Text.lineAfter? (footerLead breakingKey false) true text with
  | some rest =>
    have hvalue : breakingIn? text = if rest = [] then none else some (String.ofList rest) :=
      footerIn?_of_some hline
    rw [hline, Option.isSome_some, if_pos rfl] at hagain
    by_cases hnil : rest = []
    · rw [if_pos hnil] at hvalue
      rw [hvalue] at hsaid hagain ⊢
      subst hagain hsaid hnil
      cases header.breaking <;> simp
    · rw [if_neg hnil] at hvalue
      have hsame : Text.dropReturns rest = rest := by
        obtain ⟨-, hmem⟩ : _ ∧ ∀ c ∈ (String.ofList rest).toList, c ∈ footerMark false ∨
            c ∈ text ∧ c ≠ '\n' :=
          of_footerIn? hvalue
        refine Text.dropReturns_of_not_mem fun hr => hreturn ?_
        exact ((hmem '\r' (by rwa [String.toList_ofList])).resolve_left List.not_mem_nil).1
      rw [hvalue] at hsaid hagain ⊢
      subst hagain hsaid
      simp [hnil, bodyText, hsame]
  | none =>
    have hvalue : breakingIn? text = none := footerIn?_of_none hline
    rw [hline, Option.isSome_none, if_neg Bool.false_ne_true] at hagain
    rw [hvalue] at hsaid ⊢
    subst hagain hsaid
    cases header.breaking with
    | false => simp
    | true => by_cases hempty : header.description = "" <;> simp [Option.filter_some, hempty]

/-- A message that was taken apart and written is taken apart again into the same type, scope,
description and issue. What breaks is the same, too, carriage returns aside, unless it is lost, and
then nothing breaks any more. -/
theorem parse_format :
    ∃ c, ofConfig {} = .ok c ∧ ∀ subject body, ∃ first, c.parse subject body = .ok first ∧
    (first.type ≠ "" → ∃ second,
      c.parse (c.format first).header ((c.format first).body ++ "\n" ++ (c.format first).footer) =
        .ok second ∧
      second.type = first.type ∧ second.scope = first.scope ∧
        second.description = first.description ∧
      second.issue? = first.issue? ∧
      (second.breaking = first.breaking ∧ second.breakingMessage? =
          first.breakingMessage?.map (fun value => String.ofList (Text.dropReturns value.toList)) ↔
        ¬ LosesMark (ofHeader subject "") (bodyText body)) ∧
      (LosesMark (ofHeader subject "") (bodyText body) → second.breaking = false)) := by
  have hconfig : Config.validate {} = .ok () := by decide +kernel
  obtain ⟨c, hc⟩ := exists_ofConfig hconfig
  obtain ⟨-, hwhole⟩ := default_spec hc
  refine ⟨c, hc, fun subject body => ?_⟩
  obtain ⟨first, hfirst⟩ := exists_parse (hwhole subject) body
  refine ⟨first, hfirst, fun htype => ?_⟩
  obtain ⟨second, hsecond, htype₂, hscope₂, hdescription₂, hissue₂, hbreaks₂, hbreaking₂⟩ :=
    parse_format_spec hc hfirst htype
  obtain ⟨_, hheader, -, -, -, hbreaks, hbreaking, -⟩ := parse_spec hc hfirst
  cases (hwhole subject).symm.trans hheader
  have hnone : MessageRules.valueIn? {} breakingName (bodyText body) = none := rfl
  rw [breakingText?, hnone] at hbreaking
  obtain ⟨hkeeps, hloses⟩ :=
    saidAgain_iff (Text.not_mem_dropReturns body.toList) hbreaking hbreaking₂
  refine ⟨second, hsecond, htype₂, hscope₂, hdescription₂, hissue₂, ?_, fun hlost => ?_⟩
  · rw [hbreaks₂, hbreaks, saysBreaking]
    exact hkeeps
  · rw [hbreaks₂, hloses hlost]
    rfl

/-- A mark and an issue under another key are written as footers of their own, and both are read
again. -/
theorem parse_format_marked :
    ∃ c first second, ofConfig {} = .ok c ∧
      c.parse "feat(scope)!: add\rx" "JIRA: A-1\r\n" = .ok first ∧
      c.format first =
        ⟨"feat(scope): add\rx", "JIRA: A-1\n", "BREAKING CHANGE: add\rx\njira: A-1"⟩ ∧
      c.parse (c.format first).header ((c.format first).body ++ "\n" ++ (c.format first).footer) =
        .ok second ∧
      second.issue? = some "A-1" ∧ second.breaking = true ∧
        second.breakingMessage? = some "addx" := by
  obtain ⟨c, hc, hround⟩ := parse_format
  obtain ⟨first, hfirst, hround⟩ := hround "feat(scope)!: add\rx" "JIRA: A-1\r\n"
  obtain ⟨c', hc', htried⟩ := exists_of_any (x := ofConfig {})
    (p := fun c => (c.parse "feat(scope)!: add\rx" "JIRA: A-1\r\n").toOption.any fun first =>
      c.format first ==
        ⟨"feat(scope): add\rx", "JIRA: A-1\n", "BREAKING CHANGE: add\rx\njira: A-1"⟩ &&
        (first.type, first.issue?, first.breaking, first.breakingMessage?) ==
          ("feat", some "A-1", true, some "add\rx")) (by decide +kernel)
  cases hc.symm.trans hc'
  obtain ⟨_, hm, htried⟩ := exists_of_any htried
  cases hfirst.symm.trans hm
  obtain ⟨hformat, hparts⟩ := Bool.and_eq_true_iff.1 htried
  obtain ⟨htype, hissue, hbreaking, hsaid⟩ : first.type = "feat" ∧ first.issue? = some "A-1" ∧
      first.breaking = true ∧
      first.breakingMessage? = some "add\rx" := by simpa using hparts
  obtain ⟨second, hsecond, -, -, -, hissue₂, hkeeps, -⟩ := hround (by rw [htype]; decide)
  have hkept : ¬ LosesMark (ofHeader "feat(scope)!: add\rx" "") (bodyText "JIRA: A-1\r\n") := by
    rintro ⟨-, hline | ⟨-, hdescription⟩⟩
    · exact absurd hline (by decide +kernel)
    · exact absurd hdescription (by decide +kernel)
  obtain ⟨hbreaking₂, hsaid₂⟩ := hkeeps.2 hkept
  rw [hsaid] at hsaid₂
  exact ⟨c, first, second, hc, hfirst, eq_of_beq hformat, hsecond, hissue₂.trans hissue,
    hbreaking₂.trans hbreaking, hsaid₂⟩

end Convention

end ConventionalRelease
