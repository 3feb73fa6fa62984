import ConventionalRelease.Cli.Run
import ConventionalRelease.Proofs.Commit.Check
import ConventionalRelease.Proofs.Commit.FooterLines

/-!
# Completed messages

A message that does not show its issue yet is completed with a line for it. What stands behind the
first line of the completed message is what stood there before, and that line
(`Cli.lineAfter?_withFooter`). Whether the issue is read again depends on what stood there: the
first line with the key decides, even if it says nothing (`Convention.refersTo_withFooter_iff`).
-/

namespace ConventionalRelease

/-! ## Messages with a line behind them -/

namespace Cli

/-- A line that is put behind a message follows on a line feed, whether the message ends in one or
not. -/
theorem exists_toList_withFooter {message : String} (hne : message ≠ "") (text : String) :
    ∃ base, (message.toList = base ∨ message.toList = base ++ ['\n']) ∧
      (withFooter message text).toList = base ++ '\n' :: (text.toList ++ ['\n']) := by
  have hline : "\n".toList = ['\n'] := rfl
  rw [withFooter]
  by_cases hlast : message.toList.getLast? = some '\n'
  · obtain ⟨base, hbase⟩ := List.getLast?_eq_some_iff.1 hlast
    exact ⟨base, .inr hbase, by simp [hne, hbase, hline]⟩
  · exact ⟨message.toList, .inl rfl, by simp [hne, hlast, hline]⟩

/-- The line goes behind the lines that follow the first one, or else behind the first line; a line
feed at the end of the message is not doubled. -/
theorem withFooter_cases {message : String} (hne : message ≠ "") (text : String) :
    ∃ front last, '\n' ∉ front ∧ (last = [] ∨ last = ['\n']) ∧
      ((∃ rest, message.toList = front ++ '\n' :: (rest ++ last) ∧
          (withFooter message text).toList =
            front ++ '\n' :: (rest ++ '\n' :: (text.toList ++ ['\n']))) ∨
        (message.toList = front ++ last ∧
          (withFooter message text).toList = front ++ '\n' :: (text.toList ++ ['\n']))) := by
  obtain ⟨base, hmessage, hwritten⟩ := exists_toList_withFooter hne text
  obtain ⟨last, hlast, hmessage⟩ : ∃ last, (last = [] ∨ last = ['\n']) ∧
      message.toList = base ++ last := by
    rcases hmessage with hm | hm
    · exact ⟨[], .inl rfl, by rw [hm, List.append_nil]⟩
    · exact ⟨['\n'], .inr rfl, hm⟩
  by_cases hfirst : '\n' ∈ base
  · obtain ⟨front, rest, rfl, hfront⟩ := List.eq_append_cons_of_mem hfirst
    rw [List.append_assoc, List.cons_append] at hmessage hwritten
    exact ⟨front, last, hfront, hlast, .inl ⟨rest, hmessage, hwritten⟩⟩
  · exact ⟨base, last, hfirst, hlast, .inr ⟨hmessage, hwritten⟩⟩

/-- What stands behind the first line of a message with a line behind it is what stood there before,
and that line. -/
theorem lineAfter?_withFooter {lead : List Char} (hlead : '\n' ∉ lead) (hnil : lead ≠ [])
    {message : String} (hne : message ≠ "") (text : String) :
    Text.lineAfter? lead true (Convention.bodyText (splitMessage (withFooter message text)).2) =
      (Text.lineAfter? lead true (Convention.bodyText (splitMessage message).2)).or
        (Text.lineAfter? lead true (Text.dropReturns text.toList)) := by
  have hend : lead.getLast? ≠ some '\n' := fun h => hlead (List.mem_of_getLast? h)
  -- neither reading by lines nor a line feed at the end makes a difference to what is found
  have hbody : ∀ {m : String} {front rest last}, '\n' ∉ front → (last = [] ∨ last = ['\n']) →
      m.toList = front ++ '\n' :: (rest ++ last) →
        Text.lineAfter? lead true (Convention.bodyText (splitMessage m).2) =
          Text.lineAfter? lead true (Text.dropReturns rest) := by
    intro m front rest last hfront hlast hm
    rw [splitMessage_of_append hfront hm, Convention.bodyText, String.toList_ofList,
      Text.lineAfter?_join_lines hnil hend, Text.dropReturns_append]
    rcases hlast with rfl | rfl
    · exact congrArg _ (List.append_nil _)
    · exact Text.lineAfter?_append_lineFeed hnil hend true _
  obtain ⟨front, last, hfront, hlast, ⟨rest, hmessage, hwritten⟩ | ⟨hmessage, hwritten⟩⟩ :=
    withFooter_cases hne text
  · have hcut : Text.dropReturns (rest ++ '\n' :: text.toList) =
        Text.dropReturns rest ++ '\n' :: Text.dropReturns text.toList := by
      rw [Text.dropReturns_append]
      rfl
    have hback :
        rest ++ '\n' :: (text.toList ++ ['\n']) = (rest ++ '\n' :: text.toList) ++ ['\n'] := by simp
    rw [hback] at hwritten
    rw [hbody hfront hlast hmessage, hbody hfront (.inr rfl) hwritten, hcut,
      Text.lineAfter?_append hlead hnil]
  · have hempty : (splitMessage message).2 = "" := by
      rcases hlast with rfl | rfl
      · rw [List.append_nil] at hmessage
        rw [splitMessage_of_not_mem (hmessage ▸ hfront) fun h => hne (String.toList_inj.1 h)]
      · rw [splitMessage_of_append hfront hmessage]
        rfl
    have hnone : Text.lineAfter? lead true (Convention.bodyText "") = none :=
      Text.lineAfter?_nil hnil true
    rw [hempty, hnone, Option.none_or, hbody hfront (.inr rfl) hwritten]

/-- The first line stays as it is, unless it is the whole message and ends in a carriage return. -/
theorem splitMessage_withFooter_fst {message : String} (hne : message ≠ "") (text : String)
    (h : '\n' ∈ message.toList ∨ message.toList.getLast? ≠ some '\r') :
    (splitMessage (withFooter message text)).1 = (splitMessage message).1 := by
  obtain ⟨front, last, hfront, hlast, ⟨rest, hmessage, hwritten⟩ | ⟨hmessage, hwritten⟩⟩ :=
    withFooter_cases hne text
  · rw [splitMessage_of_append hfront hwritten, splitMessage_of_append hfront hmessage]
  · rw [splitMessage_of_append hfront hwritten]
    rcases hlast with rfl | rfl
    · rw [List.append_nil] at hmessage
      have hreturn := h.resolve_left (hmessage ▸ hfront)
      rw [splitMessage_of_not_mem (hmessage ▸ hfront) fun h => hne (String.toList_inj.1 h),
        ← hmessage, Text.dropReturn, if_neg hreturn, String.ofList_toList]
    · rw [splitMessage_of_append hfront hmessage]

end Cli

/-! ## The written line -/

namespace FooterStyle

variable {style : FooterStyle} {issue : String}

/-- What is written behind the key of a footer: the issue behind the prefix that it has to have,
with the number sign if the style has one. -/
def value (style : FooterStyle) (issue : String) : String :=
  String.ofList (footerMark style.useHash ++ style.written issue)

theorem not_mem_value_iff {c : Char} (hsign : c ≠ '#') :
    c ∉ (style.value issue).toList ↔ c ∉ style.written issue := by
  have hmark : c ∉ footerMark style.useHash := by
    cases style.useHash <;> simp [footerMark, hsign]
  rw [value, String.toList_ofList, List.mem_append, not_or]
  exact ⟨fun h => h.2, fun h => ⟨hmark, h⟩⟩

/-- Of the written line the value is found under the written key, if key and value can be read back:
the key has no carriage return, and the value is a text on one line without one. -/
theorem footerIn?_line_iff :
    footerIn? style.key style.useHash (Text.dropReturns (style.line issue).toList) =
      some (style.value issue) ↔
      '\r' ∉ style.key.toList ∧ style.value issue ≠ "" ∧ '\r' ∉ (style.value issue).toList ∧
        '\n' ∉ (style.value issue).toList := by
  have hne : footerLead style.key style.useHash ≠ [] := footerLead_ne_nil style.key style.useHash
  rw [not_mem_value_iff (by decide), not_mem_value_iff (by decide), toList_line,
    Text.dropReturns_append]
  by_cases hkey : '\r' ∈ style.key.toList
  · refine iff_of_false (fun hfound => ?_) fun h => h.1 hkey
    obtain ⟨rest, hrest, -⟩ := Option.bind_eq_some_iff.1 hfound
    have hreturn :=
      Text.mem_of_lineAfter? hrest (List.mem_append_left _ (List.mem_append_left _ hkey))
    rw [← Text.dropReturns_append] at hreturn
    exact Text.not_mem_dropReturns _ hreturn
  · rw [Text.dropReturns_of_not_mem (not_mem_footerLead hkey (by decide) (by decide) (by decide)),
      footerIn?_of_some (Text.lineAfter?_lead_append hne _)]
    have hempty : style.value issue ≠ "" ↔
        footerMark style.useHash ++ style.written issue ≠ [] := by
      rw [value, ← String.ofList_inj.ne]
    rw [hempty]
    constructor
    · intro h
      split at h
      · cases h
      · next hsome =>
        have hwritten :
            (Text.dropReturns (style.written issue)).takeWhile (· != '\n') = style.written issue :=
          List.append_cancel_left (String.ofList_inj.1 (Option.some.inj h))
        refine ⟨hkey, hwritten ▸ hsome, fun hreturn => ?_, fun hline => ?_⟩
        · rw [← hwritten] at hreturn
          exact Text.not_mem_dropReturns _ ((List.takeWhile_prefix _).subset hreturn)
        · rw [← hwritten] at hline
          simpa using List.all_eq_true.1 List.all_takeWhile _ hline
    · rintro ⟨-, hsome, hreturn, hline⟩
      have hwhole := Text.takeWhile_append_of_stops (p := (· != '\n'))
        (fun c hc => bne_iff_ne.2 fun e : c = '\n' => hline (e ▸ hc)) Text.stops_nil
      rw [List.append_nil] at hwhole
      rw [Text.dropReturns_of_not_mem hreturn, hwhole, if_neg hsome]
      rfl

/-- Where the line for an issue is put behind a text, the footers of the style say what was written:
`before` is the text without the line, and `text` the text with it. -/
inductive Finds (style : FooterStyle) (issue : String) (before text : List Char) : Prop
  /-- No line had the written key, and the written line can be read back. -/
  | written (hkey : '\r' ∉ style.key.toList)
      (hvalue : style.value issue ≠ "" ∧ '\r' ∉ (style.value issue).toList ∧
        '\n' ∉ (style.value issue).toList)
      (hbefore : Text.lineAfter? (footerLead style.key style.useHash) true before = none)
  /-- The first line with the written key says the same already. -/
  | before (hbefore : footerIn? style.key style.useHash before = some (style.value issue))
  /-- Nothing is found under the written key, and another key says the same. -/
  | synonym (hkey : footerIn? style.key style.useHash text = none)
      (hsynonym : style.synonyms.findSome? (footerIn? · style.useHash text) =
        some (style.value issue))

/-- The written issue is found in one of three ways. -/
theorem valueIn?_eq_some_iff {before text : List Char}
    (htext : Text.lineAfter? (footerLead style.key style.useHash) true text =
      (Text.lineAfter? (footerLead style.key style.useHash) true before).or
        (Text.lineAfter? (footerLead style.key style.useHash) true
          (Text.dropReturns (style.line issue).toList))) :
    style.valueIn? text = some (style.value issue) ↔ style.Finds issue before text := by
  have hfooter : footerIn? style.key style.useHash text =
      if (Text.lineAfter? (footerLead style.key style.useHash) true before).isSome then
        footerIn? style.key style.useHash before
      else footerIn? style.key style.useHash (Text.dropReturns (style.line issue).toList) := by
    rw [footerIn?, footerIn?, footerIn?, htext]
    cases Text.lineAfter? (footerLead style.key style.useHash) true before <;> rfl
  rw [valueIn?_eq, Option.or_eq_some_iff]
  constructor
  · rintro (hfound | ⟨hnone, hsynonym⟩)
    · rw [hfooter] at hfound
      split at hfound
      · exact .before hfound
      · next hbefore =>
        obtain ⟨hkey, hvalue⟩ := footerIn?_line_iff.1 hfound
        exact .written hkey hvalue (Option.not_isSome_iff_eq_none.1 hbefore)
    · exact .synonym hnone hsynonym
  · rintro (⟨hkey, hvalue, hbefore⟩ | hbefore | ⟨hkey, hsynonym⟩)
    · left
      rw [hfooter, hbefore, Option.isSome_none, if_neg Bool.false_ne_true]
      exact footerIn?_line_iff.2 ⟨hkey, hvalue⟩
    · left
      rw [hfooter]
      obtain ⟨rest, hrest, -⟩ := Option.bind_eq_some_iff.1 hbefore
      rw [hrest, Option.isSome_some, if_pos rfl, hbefore]
    · exact .inr ⟨hkey, hsynonym⟩

end FooterStyle

/-! ## The completed message -/

namespace Convention

variable {config : Config} {c : Convention}

/-- A message is completed with the line for the issue of the branch, behind an empty line if there
is no footer yet, and only if it does not have the footer already. -/
theorem of_enhance {branch message text : String} (h : c.enhance branch message = .ok text)
    (hne : text ≠ "") :
    ∃ footer issue, c.issueFooter = some footer ∧ footer.isPresent message = false ∧
      c.issueId? branch = some issue ∧
      (text = footer.line issue ∨ text = "\n" ++ footer.line issue) := by
  unfold enhance at h
  split at h
  · exact absurd (Except.ok.inj h).symm hne
  · split at h
    · exact absurd (Except.ok.inj h).symm hne
    · next footer hfooter =>
      split at h
      · exact absurd (Except.ok.inj h).symm hne
      · next hpresent =>
        split at h
        · cases h
        · next issue hissue =>
          refine ⟨footer, issue, hfooter, Bool.eq_false_iff.2 hpresent, hissue, ?_⟩
          split at h
          · exact .inl (Except.ok.inj h).symm
          · exact .inr (Except.ok.inj h).symm

/-- A message that is accepted is not empty. -/
theorem ne_of_validate {message : String} (h : c.validate message = .ok ()) : message ≠ "" := by
  obtain ⟨m, header, hm, hheader, -, htype, -⟩ := of_validate h
  obtain ⟨_, hfirst, htype', -⟩ := of_parse hm
  cases hheader.symm.trans hfirst
  rintro rfl
  have hempty : header = "" :=
    String.toList_inj.1 (List.eq_nil_iff_forall_not_mem.2 fun d hd =>
      List.not_mem_nil (mem_of_header hheader hd))
  rw [hempty] at htype'
  exact ne_of_validateType htype htype'

/-- A message taken apart line by line says that it refers to an issue. -/
def RefersTo (c : Convention) (message issue : String) : Prop :=
  ∃ m, c.parse (splitMessage message).1 (splitMessage message).2 = .ok m ∧ m.issue? = some issue

/-- What is put behind a message is a line with a key and a value for the issue of the branch. Where
the key is on one line, the completed message refers to that value exactly if a header is still
found in its first line, and its footers show the value: the first line with the written key
decides, even if it says nothing. -/
theorem refersTo_withFooter_iff (hconfig : config.validate = .ok ()) :
    ∃ c, ofConfig config = .ok c ∧ ∀ branch message text, c.validate message = .ok () →
      c.enhance branch message = .ok text → text ≠ "" →
      ∃ style issue, config.messages.issueStyle? = some style ∧ c.issueId? branch = some issue ∧
        (text = style.line issue ∨ text = "\n" ++ style.line issue) ∧
        (style.line issue).toList =
          style.key.toList ++ footerSeparator style.useHash ++ (style.value issue).toList ∧
        ('\n' ∈ message.toList ∨ message.toList.getLast? ≠ some '\r' →
          ∃ header, c.header (splitMessage (Cli.withFooter message text)).1 = .ok header) ∧
        ('\n' ∉ style.key.toList →
          (c.RefersTo (Cli.withFooter message text) (style.value issue) ↔
            (∃ header, c.header (splitMessage (Cli.withFooter message text)).1 = .ok header) ∧
              style.Finds issue (bodyText (splitMessage message).2)
                (bodyText (splitMessage (Cli.withFooter message text)).2))) := by
  obtain ⟨c, hc⟩ := exists_ofConfig hconfig
  refine ⟨c, hc, fun branch message text hvalid henhance hne => ?_⟩
  obtain ⟨footer, issue, hfooter, -, hissue, htext⟩ := of_enhance henhance hne
  have hstyle := (issueFooter_of_ofConfig hc).1
  rw [hfooter, Option.map_some] at hstyle
  have hmessage : message ≠ "" := ne_of_validate hvalid
  refine ⟨footer.style, issue, hstyle.symm, hissue, htext, ?_, fun hlast => ?_, fun hkey => ?_⟩
  · rw [FooterStyle.toList_line, FooterStyle.value, String.toList_ofList, footerLead,
      List.append_assoc _ (footerMark _)]
  · obtain ⟨_, header, -, hheader, -⟩ := of_validate hvalid
    exact ⟨header, by rw [Cli.splitMessage_withFooter_fst hmessage text hlast, hheader]⟩
  · have hlead : '\n' ∉ footerLead footer.style.key footer.style.useHash :=
      not_mem_footerLead hkey (by decide) (by decide) (by decide)
    have hnil : footerLead footer.style.key footer.style.useHash ≠ [] := footerLead_ne_nil _ _
    have hline :
        Text.lineAfter? (footerLead footer.style.key footer.style.useHash) true
          (Text.dropReturns text.toList) =
          Text.lineAfter? (footerLead footer.style.key footer.style.useHash) true
            (Text.dropReturns (footer.style.line issue).toList) := by
      rcases htext with rfl | rfl
      · rfl
      · have hempty : Text.dropReturns ("\n" ++ footer.line issue).toList =
            '\n' :: Text.dropReturns (footer.style.line issue).toList := by
          rw [String.toList_append, Text.dropReturns_append]
          rfl
        rw [hempty]
        exact Text.lineAfter?_lineFeed_cons hnil (fun h => hlead (List.mem_of_head? h)) _
    have hfound := Cli.lineAfter?_withFooter hlead hnil hmessage text
    rw [hline] at hfound
    rw [← FooterStyle.valueIn?_eq_some_iff hfound]
    have hvalue : ∀ body, config.messages.valueIn? issueName body = footer.style.valueIn? body :=
      fun body => by
      have hsame : (config.messages.footers.get? issueName).filter (·.key != "") =
          some footer.style := hstyle.symm
      rw [MessageRules.valueIn?, hsame, Option.bind_some]
    constructor
    · rintro ⟨m, hm, hsaid⟩
      obtain ⟨header, hheader, -, -, -, -, -, hissue⟩ := parse_spec hc hm
      rw [hsaid, hvalue] at hissue
      exact ⟨⟨header, hheader⟩, hissue.symm⟩
    · rintro ⟨⟨header, hheader⟩, hsaid⟩
      obtain ⟨m, hm⟩ := exists_parse hheader (splitMessage (Cli.withFooter message text)).2
      obtain ⟨_, -, -, -, -, -, -, hissue⟩ := parse_spec hc hm
      exact ⟨m, hm, by rw [hissue, hvalue, hsaid]⟩

/-- A message without a line for the issue refers to it once it has one. -/
theorem refersTo_withFooter_subject :
    Config.validate {} = .ok () ∧ ∃ c, ofConfig {} = .ok c ∧ c.validate "feat: add x" = .ok () ∧
      c.enhance "feature/JIRA-42" "feat: add x" = .ok "\njira: JIRA-42" ∧
      c.RefersTo (Cli.withFooter "feat: add x" "\njira: JIRA-42") "JIRA-42" := by
  have hconfig : Config.validate {} = .ok () := by decide +kernel
  obtain ⟨c, hc, hfound⟩ := refersTo_withFooter_iff hconfig
  obtain ⟨c', hc', htried⟩ := exists_of_any (x := ofConfig {})
    (p := fun c => c.validate "feat: add x" == .ok () &&
      c.enhance "feature/JIRA-42" "feat: add x" == .ok "\njira: JIRA-42" &&
      c.issueId? "feature/JIRA-42" == some "JIRA-42") (by decide +kernel)
  cases hc.symm.trans hc'
  obtain ⟨hchecks, hid⟩ := Bool.and_eq_true_iff.1 htried
  obtain ⟨hvalid, henhance⟩ := Bool.and_eq_true_iff.1 hchecks
  obtain ⟨style, issue, hstyle, hissue, -, -, hheader, hfinds⟩ :=
    hfound _ _ _ (eq_of_beq hvalid) (eq_of_beq henhance) (by decide)
  cases hstyle.symm.trans
    (rfl : MessageRules.issueStyle? {} = some { key := "jira", synonyms := ["Jira", "JIRA"] })
  cases hissue.symm.trans (eq_of_beq hid)
  refine ⟨hconfig, c, hc, eq_of_beq hvalid, eq_of_beq henhance, ?_⟩
  have hfinds := hfinds (by decide)
  exact hfinds.2 ⟨hheader (.inr (by decide)),
    .written (by decide) (by decide +kernel) (by decide +kernel)⟩

/-- A line with the key and nothing else keeps the issue from being read that the completed message
has behind it. -/
theorem not_refersTo_withFooter_placeholder :
    ∃ c, ofConfig {} = .ok c ∧ c.validate "feat: add x\n\njira: \n" = .ok () ∧
      c.enhance "feature/JIRA-42" "feat: add x\n\njira: \n" = .ok "jira: JIRA-42" ∧
      Cli.withFooter "feat: add x\n\njira: \n" "jira: JIRA-42" =
        "feat: add x\n\njira: \njira: JIRA-42\n" ∧
      ∀ issue, ¬ c.RefersTo "feat: add x\n\njira: \njira: JIRA-42\n" issue := by
  obtain ⟨c, hc, htried⟩ := exists_of_any (x := ofConfig {})
    (p := fun c => c.validate "feat: add x\n\njira: \n" == .ok () &&
      c.enhance "feature/JIRA-42" "feat: add x\n\njira: \n" == .ok "jira: JIRA-42" &&
      (c.parse (splitMessage "feat: add x\n\njira: \njira: JIRA-42\n").1
        (splitMessage "feat: add x\n\njira: \njira: JIRA-42\n").2).toOption.all (·.issue? == none))
    (by decide +kernel)
  obtain ⟨hchecks, hnone⟩ := Bool.and_eq_true_iff.1 htried
  obtain ⟨hvalid, henhance⟩ := Bool.and_eq_true_iff.1 hchecks
  refine ⟨c, hc, eq_of_beq hvalid, eq_of_beq henhance, by decide, ?_⟩
  rintro issue ⟨m, hm, hsaid⟩
  rw [hm, Except.toOption, Option.all_some, hsaid] at hnone
  cases hnone

end Convention

end ConventionalRelease
