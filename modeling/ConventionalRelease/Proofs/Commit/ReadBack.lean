import ConventionalRelease.Proofs.Commit.FooterLines
import ConventionalRelease.Proofs.Commit.Header
import ConventionalRelease.Proofs.History.Message

/-!
# Checked messages in the log

A message is checked line by line, and read back from the log by paragraphs.
`Convention.readsBack_iff` tells when the log says what was checked: exactly if the header of the
first paragraph gives the type and scope of the first line, and what the log keeps as the body has
the footers of the lines after the first. That is so for every message that is laid out, and it need
not be so for others.
-/

namespace ConventionalRelease

/-- Two messages say the same about a release: the type and scope, whether something breaks and
what, and the issue. -/
structure CommitMessage.Agrees (m m' : CommitMessage) : Prop where
  type : m'.type = m.type
  scope : m'.scope = m.scope
  breaking : m'.breaking = m.breaking
  breakingMessage : m'.breakingMessage? = m.breakingMessage?
  issue : m'.issue? = m.issue?

/-- No key of a footer begins with a line feed. -/
def MessageRules.HasLineKeys (rules : MessageRules) : Prop :=
  ∀ e ∈ rules.footers.entries, ∀ key ∈ e.2.keys, key.toList.head? ≠ some '\n'

instance (rules : MessageRules) : Decidable rules.HasLineKeys :=
  inferInstanceAs
    (Decidable (∀ e ∈ rules.footers.entries, ∀ key ∈ e.2.keys, key.toList.head? ≠ some '\n'))

/-! ## The message line by line -/

/-- A message of one line is its first line. -/
theorem splitMessage_of_not_mem {message : String} (h : '\n' ∉ message.toList)
    (hne : message.toList ≠ []) :
    splitMessage message = (message, "") := by
  rw [splitMessage, Text.lines_of_not_mem h hne]
  simp [Text.join]

/-- A message is split at its first line feed. -/
theorem splitMessage_of_append {message : String} {front rest : List Char} (h : '\n' ∉ front)
    (hm : message.toList = front ++ '\n' :: rest) :
    splitMessage message = (String.ofList (Text.dropReturn front),
      String.ofList (Text.join ['\n'] (Text.lines rest))) := by
  rw [splitMessage, hm, Text.lines_append_cons h]

/-- The first line of a message is at its front, on one line. -/
theorem splitMessage_fst (message : String) :
    (splitMessage message).1.toList <+: message.toList ∧
      '\n' ∉ (splitMessage message).1.toList := by
  by_cases hline : '\n' ∈ message.toList
  · obtain ⟨front, rest, hm, hfront⟩ := List.eq_append_cons_of_mem hline
    have hbegin := Text.dropReturn_prefix front
    rw [splitMessage_of_append hfront hm, String.toList_ofList]
    exact ⟨hm ▸ hbegin.trans (List.prefix_append front _), fun h => hfront (hbegin.subset h)⟩
  · cases hm : message.toList with
    | nil =>
      rw [splitMessage, hm]
      exact ⟨List.nil_prefix, List.not_mem_nil⟩
    | cons d s =>
      rw [splitMessage_of_not_mem hline (by rw [hm]; exact List.cons_ne_nil d s), ← hm]
      exact ⟨List.prefix_refl _, hline⟩

namespace IsLaidOut

variable {header body : List Char} {message : String}

/-- Without carriage returns the body is read as the log shows it. -/
theorem bodyText_eq {text : List Char} {commit : Commit} (h : IsLaidOut header body text)
    (hreturn : '\r' ∉ text) (hm : commit.message.toList = text) :
    Convention.bodyText commit.body = body := by
  have hmem : '\r' ∉ body := by
    cases h with
    | header n hfront hc => exact List.not_mem_nil
    | body m n hfront hc hbody hfirst hlast =>
      simp only [List.mem_append, List.mem_cons, not_or] at hreturn
      exact hreturn.2.2.2.1
  rw [Convention.bodyText, h.body_eq hm]
  exact List.filter_eq_self.2 fun c hc => by simpa using fun e : c = '\r' => hmem (e ▸ hc)

/-- A line and what follows it are what the check sees. -/
theorem splitMessage_of_line {front rest : List Char} {c : Char} (hfront : '\n' ∉ front)
    (hc : Text.isAsciiBlank c = false) (hreturn : '\r' ∉ message.toList)
    (hm : message.toList = front ++ c :: '\n' :: rest) :
    (splitMessage message).1.toList = front ++ [c] ∧
      ∀ key useHash, footerIn? key useHash (Convention.bodyText (splitMessage message).2) =
        footerIn? key useHash rest := by
  have hline : '\n' ∉ front ++ [c] := Commit.not_mem_of_front hfront hc
  have hm' : message.toList = (front ++ [c]) ++ '\n' :: rest := by simpa using hm
  rw [hm', List.mem_append, List.mem_cons, not_or, not_or] at hreturn
  rw [splitMessage_of_append hline hm', Text.dropReturn_of_not_mem hreturn.1, String.toList_ofList]
  refine ⟨rfl, fun key useHash => ?_⟩
  rw [Convention.bodyText, String.toList_ofList, footerIn?_join_lines,
    Text.dropReturns_of_not_mem hreturn.2.2]

/-- A message laid out starts with its header, and the rest has the footers of the body. -/
theorem splitMessage_eq (h : IsLaidOut header body message.toList)
    (hreturn : '\r' ∉ message.toList) :
    (splitMessage message).1.toList = header ∧ ∀ key useHash, key.toList.head? ≠ some '\n' →
      footerIn? key useHash (Convention.bodyText (splitMessage message).2) =
        footerIn? key useHash body := by
  generalize hm : message.toList = text at h
  cases h with
  | @header front c n hfront hc =>
    cases n with
    | zero =>
      have hline : '\n' ∉ message.toList := hm ▸ Commit.not_mem_of_front hfront hc
      rw [splitMessage_of_not_mem hline (by simp [hm])]
      exact ⟨hm, fun _ _ _ => rfl⟩
    | succ n =>
      obtain ⟨hfst, hsnd⟩ := splitMessage_of_line hfront hc hreturn hm
      refine ⟨hfst, fun key useHash hkey => (hsnd key useHash).trans ?_⟩
      simpa using footerIn?_lineFeeds hkey useHash n 0 []
  | @body front body c m n hfront hc hbody hfirst hlast =>
    obtain ⟨hfst, hsnd⟩ := splitMessage_of_line hfront hc hreturn hm
    exact ⟨hfst, fun key useHash hkey =>
      (hsnd key useHash).trans (footerIn?_lineFeeds hkey useHash (m + 1) n body)⟩

end IsLaidOut

namespace Convention

/-- A header and a body keep what another header and body say: the type and scope, whether a mark or
a footer tells of something that breaks, the footer or description that tells what, and the value of
the first line with a key of the issue footer. -/
structure Keeps (rules : MessageRules) (header : String) (body : List Char) (header' : String)
    (body' : List Char) : Prop where
  type : (ofHeader header' "").type = (ofHeader header "").type
  scope : (ofHeader header' "").scope = (ofHeader header "").scope
  breaking : saysBreaking (ofHeader header' "") body' = saysBreaking (ofHeader header "") body
  breakingText :
    breakingText? rules (ofHeader header' "") body' = breakingText? rules (ofHeader header "") body
  issue : rules.valueIn? issueName body' = rules.valueIn? issueName body

/-- A body keeps the footers of another one: the first lines with a key of the issue footer have the
same value, and so have those of the footer of a breaking change. Where the header is marked, its
description counts as such a footer; where it is not, a footer that is configured under the same
name does. -/
structure KeepsFooters (rules : MessageRules) (header : CommitMessage) (body : List Char)
    (description' : String) (body' : List Char) : Prop where
  unmarked : header.breaking = false → breakingIn? body' = breakingIn? body ∧
    (breakingIn? body = none → rules.valueIn? breakingName body' = rules.valueIn? breakingName body)
  marked : header.breaking = true →
    (breakingIn? body').getD description' = (breakingIn? body).getD header.description
  issue : rules.valueIn? issueName body' = rules.valueIn? issueName body

/-- The message that the log shows of a commit agrees with the message that was checked. -/
def ReadsBack (c : Convention) (commit : Commit) (checked : CommitMessage) : Prop :=
  ∃ logged, c.parse commit.raw.subject commit.raw.body = .ok logged ∧ checked.Agrees logged

variable {config : Config} {c : Convention}

/-- Messages taken apart agree exactly if the log keeps what they say. -/
theorem agrees_iff (h : ofConfig config = .ok c) {subject body subject' body' : String}
    {m m' : CommitMessage} (hm : c.parse subject body = .ok m)
    (hm' : c.parse subject' body' = .ok m') :
    m.Agrees m' ↔ ∃ header header', c.header subject = .ok header ∧
      c.header subject' = .ok header' ∧
      Keeps config.messages header (bodyText body) header' (bodyText body') := by
  obtain ⟨header, hheader, htype, hscope, -, hbreaking, htext, hissue⟩ := parse_spec h hm
  obtain ⟨header', hheader', htype', hscope', -, hbreaking', htext', hissue'⟩ := parse_spec h hm'
  constructor
  · rintro ⟨ht, hs, hb, hx, hi⟩
    rw [htype, htype'] at ht
    rw [hscope, hscope'] at hs
    rw [hbreaking, hbreaking'] at hb
    rw [htext, htext'] at hx
    rw [hissue, hissue'] at hi
    exact ⟨header, header', hheader, hheader', ht, hs, hb, hx, hi⟩
  · rintro ⟨_, _, h1, h2, ht, hs, hb, hx, hi⟩
    cases hheader.symm.trans h1
    cases hheader'.symm.trans h2
    exact ⟨by rw [htype, htype', ht], by rw [hscope, hscope', hs],
      by rw [hbreaking, hbreaking', hb], by rw [htext, htext', hx], by rw [hissue, hissue', hi]⟩

/-! ## The header on one line -/

/-- A small letter is no blank. -/
theorem isAsciiBlank_of_isLower {d : Char} (h : d.isLower = true) :
    Text.isAsciiBlank d = false := by
  have hlower : (decide ('a'.val ≤ d.val) && decide (d.val ≤ 'z'.val)) = true := h
  have ha : 97 ≤ d.toNat := by
    rw [Bool.and_eq_true, decide_eq_true_eq, UInt32.le_iff_toNat_le] at hlower
    exact hlower.1
  unfold Text.isAsciiBlank
  simp only [Bool.or_eq_false_iff, Bool.and_eq_false_iff, decide_eq_false_iff_not,
    beq_eq_false_iff_ne]
  omega

/-- A description that starts with a small letter has one after its blanks. -/
theorem exists_of_startsLower {description : List Char}
    (h : startsLower (Text.trim description) = true) :
    ∃ d rest, description = description.takeWhile Text.isBlank ++ d :: rest ∧ d.isLower = true := by
  have hcut : description.takeWhile Text.isBlank ++ description.dropWhile Text.isBlank =
      description :=
    List.takeWhile_append_dropWhile
  rw [Text.trim, Text.dropAround, Text.dropEndWhile, startsLower] at h
  cases hdrop : description.dropWhile Text.isBlank with
  | nil =>
    rw [hdrop] at h
    cases h
  | cons d rest =>
    refine ⟨d, rest, by rw [← hdrop, hcut], ?_⟩
    have hbegin : ((d :: rest).reverse.dropWhile Text.isBlank).reverse <+: d :: rest := by
      simpa using
        List.reverse_prefix.2 (List.dropWhile_suffix (l := (d :: rest).reverse) Text.isBlank)
    rw [hdrop] at h
    generalize ((d :: rest).reverse.dropWhile Text.isBlank).reverse = trimmed at h hbegin
    cases trimmed with
    | nil => cases h
    | cons e trimmed => exact (List.cons_prefix_cons.1 hbegin).1 ▸ h

/-- What a header of the conventional form says. -/
theorem ofHeader_of_parse? {header : String} {h : Header}
    (hparse : Header.parse? header.toList = some h) :
    (ofHeader header "").type = String.ofList h.type ∧
      (ofHeader header "").scope = String.ofList h.scope ∧
      (ofHeader header "").description = String.ofList (Text.trim h.description) ∧
      (ofHeader header "").breaking = h.marked := by
  rw [ofHeader, hparse]
  exact ⟨rfl, rfl, rfl, rfl⟩

/-- A header of another form has no type. -/
theorem parse?_of_type_ne {header : String} (h : (ofHeader header "").type ≠ "") :
    ∃ hd, Header.parse? header.toList = some hd := by
  cases hparse : Header.parse? header.toList with
  | none =>
    rw [ofHeader, hparse] at h
    exact absurd rfl h
  | some hd => exact ⟨hd, rfl⟩

/-- A checked header keeps its type, scope and mark in the log. -/
theorem ofHeader_subject {commit : Commit}
    (htype : (ofHeader (splitMessage commit.message).1 "").type ≠ "")
    (hlower : startsLower (ofHeader (splitMessage commit.message).1 "").description.toList = true) :
    (ofHeader commit.raw.subject "").type = (ofHeader (splitMessage commit.message).1 "").type ∧
      (ofHeader commit.raw.subject "").scope = (ofHeader (splitMessage commit.message).1 "").scope ∧
      (ofHeader commit.raw.subject "").breaking =
        (ofHeader (splitMessage commit.message).1 "").breaking := by
  obtain ⟨⟨rest, hm⟩, hline⟩ := splitMessage_fst commit.message
  generalize (splitMessage commit.message).1 = header at htype hlower hm hline
  obtain ⟨h, hparse⟩ := parse?_of_type_ne htype
  obtain ⟨htype', hscope, hdescription, hmarked⟩ := ofHeader_of_parse? hparse
  rw [hdescription, String.toList_ofList] at hlower
  obtain ⟨parens, hproper, hheader⟩ := Header.parse?_eq_some_iff.1 hparse
  obtain ⟨d, tail, hd, hsmall⟩ := exists_of_startsLower hlower
  have hfront : '\n' ∉ h.lead parens ++ h.description.takeWhile Text.isBlank :=
    fun hmem => hline (by
      rw [hheader, hd, ← List.append_assoc]
      exact List.mem_append_left _ hmem)
  have hmessage : commit.message.toList =
      (h.lead parens ++ h.description.takeWhile Text.isBlank) ++ d :: (tail ++ rest) := by
    rw [← hm, hheader]
    conv_lhs => rw [hd]
    simp
  -- the first letter of the description keeps the blanks before it in place, whatever follows it
  have hsubject := Commit.subject_eq hfront (isAsciiBlank_of_isLower hsmall) hmessage
  have hblank : '\n' ∉ h.description.takeWhile Text.isBlank ++
      d :: Commit.onOneLineAfter [] (Commit.paragraph (tail ++ rest)) := by
    have hblanks : '\n' ∉ h.description.takeWhile Text.isBlank := fun hmem =>
      hproper.description_line ((List.takeWhile_prefix _).subset hmem)
    have hd : '\n' ≠ d := by
      rintro rfl
      cases hsmall
    simp only [List.mem_append, List.mem_cons, not_or]
    exact ⟨hblanks, hd, Commit.not_mem_onOneLineAfter _ _⟩
  have hparse' := Header.parse?_lead_append_description hproper hblank
  rw [← List.append_assoc, ← hsubject] at hparse'
  obtain ⟨ht, hs, -, hb⟩ := ofHeader_of_parse? hparse'
  exact ⟨ht.trans htype'.symm, hs.trans hscope.symm, hb.trans hmarked.symm⟩

/-! ## The log and the check -/

/-- Headers and bodies with the same footers say the same. -/
theorem Keeps.of_footerIn? {rules : MessageRules} (hrules : rules.HasLineKeys) (header : String)
    {body body' : List Char} (h : ∀ key useHash, key.toList.head? ≠ some '\n' →
      footerIn? key useHash body = footerIn? key useHash body') :
    Keeps rules header body header body' := by
  have hvalue : ∀ name, rules.valueIn? name body' = rules.valueIn? name body := fun name => by
    refine Option.bind_congr fun style hstyle => ?_
    obtain ⟨hget, -⟩ := Option.filter_eq_some_iff.1 hstyle
    have hkeys := hrules _ (mem_of_lookup hget)
    rw [FooterStyle.valueIn?, FooterStyle.valueIn?]
    generalize style.keys = keys at hkeys
    induction keys with
    | nil => rfl
    | cons key keys ih =>
      rw [List.findSome?_cons, List.findSome?_cons, h key _ (hkeys key List.mem_cons_self),
        ih fun k hk => hkeys k (List.mem_cons_of_mem key hk)]
  have hbreaking : breakingIn? body' = breakingIn? body := (h breakingKey false (by decide)).symm
  exact {
    type := rfl
    scope := rfl
    breaking := by rw [saysBreaking, saysBreaking, hbreaking]
    breakingText := by rw [breakingText?, breakingText?, hbreaking, hvalue]
    issue := hvalue issueName }

/-- Where the header is kept, the rest is a matter of the footers. -/
theorem keeps_iff_keepsFooters {rules : MessageRules} {header header' : String}
    {body body' : List Char} (htype : (ofHeader header' "").type = (ofHeader header "").type)
    (hscope : (ofHeader header' "").scope = (ofHeader header "").scope)
    (hmark : (ofHeader header' "").breaking = (ofHeader header "").breaking) :
    Keeps rules header body header' body' ↔
      KeepsFooters rules (ofHeader header "") body (ofHeader header' "").description body' := by
  constructor
  · rintro ⟨-, -, hbreaking, htext, hissue⟩
    rw [saysBreaking, saysBreaking, hmark] at hbreaking
    rw [breakingText?, breakingText?, hmark] at htext
    refine ⟨fun hfalse => ?_, fun htrue => ?_, hissue⟩
    · rw [hfalse] at hbreaking htext
      cases h : breakingIn? body <;> cases h' : breakingIn? body' <;> simp_all
    · rw [htrue] at htext
      cases h : breakingIn? body <;> cases h' : breakingIn? body' <;> simp_all
  · rintro ⟨hunmarked, hmarked, hissue⟩
    refine ⟨htype, hscope, ?_, ?_, hissue⟩
    · rw [saysBreaking, saysBreaking, hmark]
      cases h : (ofHeader header "").breaking with
      | false => rw [(hunmarked h).1]
      | true => rfl
    · rw [breakingText?, breakingText?, hmark]
      cases h : (ofHeader header "").breaking with
      | false =>
        obtain ⟨hsame, hnone⟩ := hunmarked h
        rw [hsame]
        cases hfound : breakingIn? body with
        | none => simpa using hnone hfound
        | some value => rfl
      | true =>
        have hsame := hmarked h
        cases hfound : breakingIn? body <;> cases hfound' : breakingIn? body' <;> simp_all

/-- The log agrees with what was checked exactly if the header and the body that it shows keep what
was said. -/
theorem readsBack_iff_keeps (h : ofConfig config = .ok c) {commit : Commit}
    {checked : CommitMessage}
    (hchecked : c.parse (splitMessage commit.message).1 (splitMessage commit.message).2 =
      .ok checked) :
    c.ReadsBack commit checked ↔ ∃ header header',
      c.header (splitMessage commit.message).1 = .ok header ∧
      c.header commit.raw.subject = .ok header' ∧
      Keeps config.messages header (bodyText (splitMessage commit.message).2) header'
        (bodyText commit.raw.body) := by
  constructor
  · rintro ⟨logged, hlogged, hagrees⟩
    exact (agrees_iff h hchecked hlogged).1 hagrees
  · rintro ⟨header, header', hheader, hheader', hkeeps⟩
    obtain ⟨logged, hlogged⟩ := exists_parse hheader' commit.raw.body
    exact ⟨logged, hlogged,
      (agrees_iff h hchecked hlogged).2 ⟨header, header', hheader, hheader', hkeeps⟩⟩

/-- Without a selector the header of a checked message is kept, and the rest is a matter of the
footers. -/
theorem readsBack_iff_keepsFooters (h : ofConfig config = .ok c) {commit : Commit}
    (hvalid : c.validate commit.message = .ok ()) (hselector : c.selector = none)
    {checked : CommitMessage}
    (hchecked : c.parse (splitMessage commit.message).1 (splitMessage commit.message).2 =
      .ok checked) :
    c.ReadsBack commit checked ↔
      KeepsFooters config.messages (ofHeader (splitMessage commit.message).1 "")
        (bodyText (splitMessage commit.message).2) (ofHeader commit.raw.subject "").description
        (bodyText commit.raw.body) := by
  have hwhole : ∀ subject, c.header subject = .ok subject := fun subject => by
    rw [Convention.header, hselector]
  obtain ⟨m, header, hm, -, -, htype, -, hlower⟩ := of_validate hvalid
  obtain ⟨first, hfirst, htype', -, hdescription', -⟩ := parse_spec h hm
  cases (hwhole _).symm.trans hfirst
  obtain ⟨ht, hs, hb⟩ :=
    ofHeader_subject (htype' ▸ ne_of_validateType htype) (hdescription' ▸ hlower)
  rw [readsBack_iff_keeps h hchecked, ← keeps_iff_keepsFooters ht hs hb]
  constructor
  · rintro ⟨_, _, hheader, hheader', hkeeps⟩
    cases (hwhole _).symm.trans hheader
    cases (hwhole _).symm.trans hheader'
    exact hkeeps
  · exact fun hkeeps => ⟨_, _, hwhole _, hwhole _, hkeeps⟩

/-- The log agrees with what was checked of a message that is laid out. -/
theorem readsBack_of_isLaidOut (h : ofConfig config = .ok c) {commit : Commit}
    {checked : CommitMessage}
    (hchecked : c.parse (splitMessage commit.message).1 (splitMessage commit.message).2 =
      .ok checked)
    (hreturn : '\r' ∉ commit.message.toList) (hkeys : config.messages.HasLineKeys)
    {line body : List Char} (hlaid : IsLaidOut line body commit.message.toList) :
    c.ReadsBack commit checked := by
  obtain ⟨header, hheader, -⟩ := parse_spec h hchecked
  obtain ⟨hfst, hfooters⟩ := hlaid.splitMessage_eq hreturn
  have hsubject : commit.raw.subject = (splitMessage commit.message).1 :=
    String.toList_inj.1 ((hlaid.subject (rfl : commit.message.toList = _)).trans hfst.symm)
  have hheader' : c.header commit.raw.subject = .ok header := by rw [hsubject, hheader]
  have hbody : bodyText commit.raw.body = body := hlaid.bodyText_eq hreturn
    (rfl : commit.message.toList = _)
  rw [readsBack_iff_keeps h hchecked, hbody]
  exact ⟨header, header, hheader, hheader', Keeps.of_footerIn? hkeys header hfooters⟩

/-- The log says what was checked exactly if it keeps the type and scope of the header, what breaks,
and the issue. Without a selector that is a matter of the footers alone, and of a message that is
laid out everything is kept. -/
theorem readsBack_iff (hconfig : config.validate = .ok ()) :
    ∃ c, ofConfig config = .ok c ∧ ∀ commit : Commit, c.validate commit.message = .ok () →
      ∃ checked, c.parse (splitMessage commit.message).1 (splitMessage commit.message).2 =
        .ok checked ∧
        (c.ReadsBack commit checked ↔ ∃ header header',
          c.header (splitMessage commit.message).1 = .ok header ∧
            c.header commit.raw.subject = .ok header' ∧
          Keeps config.messages header (bodyText (splitMessage commit.message).2) header'
            (bodyText commit.raw.body)) ∧
        (c.selector = none → (c.ReadsBack commit checked ↔
          KeepsFooters config.messages (ofHeader (splitMessage commit.message).1 "")
            (bodyText (splitMessage commit.message).2) (ofHeader commit.raw.subject "").description
            (bodyText commit.raw.body))) ∧
        ('\r' ∉ commit.message.toList → config.messages.HasLineKeys →
          (∃ header body, IsLaidOut header body commit.message.toList) →
            c.ReadsBack commit checked) := by
  obtain ⟨c, hc⟩ := exists_ofConfig hconfig
  refine ⟨c, hc, fun commit hvalid => ?_⟩
  obtain ⟨checked, header, hchecked, -⟩ := of_validate hvalid
  refine ⟨checked, hchecked, readsBack_iff_keeps hc hchecked, ?_, ?_⟩
  · intro hselector
    exact readsBack_iff_keepsFooters hc hvalid hselector hchecked
  · rintro hreturn hkeys ⟨_, _, hlaid⟩
    exact readsBack_of_isLaidOut hc hchecked hreturn hkeys hlaid

/-- A commit whose message has a footer after its header and something between them. -/
def closedSocket (between : String) : Commit :=
  { hash := "c1", author := "Tester", time := 1700000000, offset := 0
    message := "fix: close the socket" ++ between ++ "BREAKING CHANGE: sockets close themselves" }

/-- An empty line before the footer has the log say what was checked. -/
theorem readsBack_closedSocket :
    Config.validate {} = .ok () ∧ ∃ c checked, ofConfig {} = .ok c ∧
      c.validate (closedSocket "\n\n").message = .ok () ∧
      c.parse (splitMessage (closedSocket "\n\n").message).1
        (splitMessage (closedSocket "\n\n").message).2 =
        .ok checked ∧
      checked.breaking = true ∧ c.ReadsBack (closedSocket "\n\n") checked := by
  have hconfig : Config.validate {} = .ok () := by decide +kernel
  obtain ⟨c, hc, hread⟩ := readsBack_iff hconfig
  obtain ⟨c', hc', htried⟩ := exists_of_any (x := ofConfig {})
    (p := fun c => c.validate (closedSocket "\n\n").message == .ok ()) (by decide +kernel)
  cases hc.symm.trans hc'
  have hvalid : c.validate (closedSocket "\n\n").message = .ok () := eq_of_beq htried
  obtain ⟨checked, hchecked, -, -, hlaid⟩ := hread (closedSocket "\n\n") hvalid
  have hbreaking : checked.breaking = true := by
    obtain ⟨header, -, -, -, -, hbreaking, -⟩ := parse_spec hc hchecked
    rw [hbreaking, saysBreaking, Bool.or_eq_true]
    exact .inr (by decide +kernel)
  have hmessage : IsLaidOut ("fix: close the socke".toList ++ ['t'])
      "BREAKING CHANGE: sockets close themselves".toList (closedSocket "\n\n").message.toList :=
    .body 0 0 (by decide) (by decide) (by decide) (by decide) (by decide)
  exact ⟨hconfig, c, checked, hc, hvalid, hchecked, hbreaking,
    hlaid (by decide) (by decide) ⟨_, _, hmessage⟩⟩

/-- A footer right below the header is checked, and the log does not show it. -/
theorem not_readsBack_closedSocket :
    ∃ c checked, ofConfig {} = .ok c ∧ c.validate (closedSocket "\n").message = .ok () ∧
      c.parse (splitMessage (closedSocket "\n").message).1
        (splitMessage (closedSocket "\n").message).2 =
        .ok checked ∧
      checked.breaking = true ∧ ¬ c.ReadsBack (closedSocket "\n") checked := by
  obtain ⟨c, hc, htried⟩ := exists_of_any (x := ofConfig {})
    (p := fun c => c.validate (closedSocket "\n").message == .ok () &&
      (c.parse (closedSocket "\n").raw.subject (closedSocket "\n").raw.body).toOption.all
        (!·.breaking))
    (by decide +kernel)
  obtain ⟨hchecks, hsilent⟩ := Bool.and_eq_true_iff.1 htried
  have hvalid : c.validate (closedSocket "\n").message = .ok () := eq_of_beq hchecks
  obtain ⟨checked, -, hchecked, -⟩ := of_validate hvalid
  have hbreaking : checked.breaking = true := by
    obtain ⟨header, -, -, -, -, hbreaking, -⟩ := parse_spec hc hchecked
    rw [hbreaking, saysBreaking, Bool.or_eq_true]
    exact .inr (by decide +kernel)
  refine ⟨c, checked, hc, hvalid, hchecked, hbreaking, ?_⟩
  rintro ⟨logged, hlogged, hagrees⟩
  rw [hlogged] at hsilent
  have hfalse : (!logged.breaking) = true := hsilent
  rw [hagrees.breaking, hbreaking] at hfalse
  cases hfalse

end Convention

end ConventionalRelease
