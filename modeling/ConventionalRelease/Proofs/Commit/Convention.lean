import ConventionalRelease.Commit.Convention
import ConventionalRelease.Proofs.Commit.FooterPattern
import ConventionalRelease.Proofs.Dictionary

/-!
# What a convention reads

A checked configuration has a convention (`Convention.exists_ofConfig`). What it reads off a message
depends on the header it finds, and on the first lines of the body that begin with the keys of the
footers (`Convention.parse_spec`).
-/

namespace ConventionalRelease

/-! ## Footers of a style -/

/-- The value under the first key of the footer that has one. -/
def FooterStyle.valueIn? (style : FooterStyle) (text : List Char) : Option String :=
  style.keys.findSome? fun key => footerIn? key style.useHash text

/-- The value of the footer that is kept under a name. -/
def MessageRules.valueIn? (rules : MessageRules) (name : String) (text : List Char) :
    Option String :=
  ((rules.footers.get? name).filter (·.key != "")).bind (·.valueIn? text)

/-- What the footer of a breaking change says. -/
def breakingIn? (text : List Char) : Option String :=
  footerIn? breakingKey false text

theorem Pattern.ofField_eq_ok {field pattern : String} {p : Pattern} :
    Pattern.ofField field pattern = .ok p ↔ Pattern.parse pattern.toList = .ok p := by
  rw [Pattern.ofField]
  cases Pattern.parse pattern.toList <;> simp

/-- Every style has a reader, which finds the values of its keys. -/
theorem FooterReader.ofStyle_eq_ok (name : String) (style : FooterStyle) :
    ∃ r, ofStyle name style = .ok r := by
  have hpatterns : ∃ ps, style.keys.mapM
      (fun key => Pattern.ofField ("commit-message.footer." ++ name)
        (footerPattern key style.useHash)) = .ok ps :=
    exists_mapM_eq_ok style.keys fun key _ =>
      ⟨_, Pattern.ofField_eq_ok.2 (parse_footerPattern key style.useHash)⟩
  obtain ⟨ps, hps⟩ := hpatterns
  exact ⟨⟨name, ps⟩, bind_eq_ok.2 ⟨ps, hps, rfl⟩⟩

/-- A reader of a style finds the values of the style's keys. -/
theorem FooterReader.of_ofStyle {name : String} {style : FooterStyle} {r : FooterReader}
    (h : ofStyle name style = .ok r) :
    r.name = name ∧ ∀ text : String, r.value? text = style.valueIn? text.toList := by
  obtain ⟨ps, hps, hr⟩ := bind_eq_ok.1 h
  cases hr
  refine ⟨rfl, fun text => ?_⟩
  rw [value?, FooterStyle.valueIn?]
  rw [mapM_eq_ok] at hps
  dsimp only
  clear h
  generalize style.keys = keys at hps
  induction hps with
  | nil => rfl
  | cons hhead _ ih =>
    rw [List.findSome?_cons, List.findSome?_cons, ih,
      footerValue?_eq (Pattern.ofField_eq_ok.1 hhead)]

/-! ## The convention of a configuration -/

/-- Reading a part that may be missing succeeds if reading the part does. -/
theorem exists_option_mapM_eq_ok {ε α β : Type} {f : α → Except ε β} (part : Option α)
    (h : ∀ a, part = some a → ∃ b, f a = .ok b) : ∃ found, part.mapM f = .ok found := by
  cases part with
  | none => exact ⟨none, rfl⟩
  | some a =>
    obtain ⟨b, hb⟩ := h a rfl
    exact ⟨some b, by simp only [Option.mapM_some, hb]; rfl⟩

theorem discard_eq_ok {ε α : Type} {x : Except ε α} : discard x = .ok () ↔ ∃ a, x = .ok a := by
  cases x with
  | error e => exact ⟨nofun, nofun⟩
  | ok a => exact ⟨fun _ => ⟨a, rfl⟩, fun _ => rfl⟩

/-- The issue footer of a style. -/
theorem IssueFooter.ofStyle_eq_ok (style : FooterStyle) :
    ∃ f, IssueFooter.ofStyle style = .ok f := by
  have hpresent := parse_presentPattern style.key style.useHash
  exact ⟨⟨style, _⟩, bind_eq_ok.2 ⟨_, Pattern.ofField_eq_ok.2 hpresent, rfl⟩⟩

/-- The rules for messages pass their check exactly if the header selector can be read and every
footer has a key. -/
theorem MessageRules.validate_eq_ok {rules : MessageRules} :
    rules.validate = .ok () ↔ (∃ found, rules.selector?.mapM readSelector = .ok found) ∧
      ∀ e ∈ rules.footers.entries, e.2.key ≠ "" := by
  have hkeys : rules.footers.entries.find? (·.2.key == "") = none ↔
      ∀ e ∈ rules.footers.entries, e.2.key ≠ "" := by
    simp only [List.find?_eq_none, beq_iff_eq, ne_eq]
  unfold validate
  rw [← hkeys]
  cases rules.selector? with
  | none =>
    cases rules.footers.entries.find? (·.2.key == "") with
    | some e => exact ⟨nofun, nofun⟩
    | none => exact ⟨fun _ => ⟨⟨none, rfl⟩, rfl⟩, fun _ => rfl⟩
  | some pattern =>
    dsimp only
    rw [Option.mapM_some, bind_eq_ok]
    constructor
    · rintro ⟨_, hread, h⟩
      obtain ⟨p, hp⟩ := discard_eq_ok.1 hread
      cases hfound : rules.footers.entries.find? (·.2.key == "") with
      | some e =>
        rw [hfound] at h
        cases h
      | none => exact ⟨⟨some p, by rw [hp]; rfl⟩, rfl⟩
    · rintro ⟨⟨found, hfound⟩, hnone⟩
      obtain ⟨p, hp, -⟩ := bind_eq_ok.1 hfound
      rw [hnone]
      exact ⟨(), discard_eq_ok.2 ⟨p, hp⟩, rfl⟩

/-- The pattern of a branch name passes its check exactly if it can be read. -/
theorem validateIssuePattern_eq_ok {branches : BranchRules} {messages : MessageRules} :
    validateIssuePattern branches messages = .ok () ↔
      ∃ found, readIssuePattern branches messages = .ok found := by
  unfold validateIssuePattern readIssuePattern
  cases issuePattern? branches messages with
  | none => exact ⟨fun _ => ⟨none, rfl⟩, fun _ => rfl⟩
  | some pattern =>
    dsimp only
    rw [discard_eq_ok]
    cases Pattern.ofField issueField pattern with
    | error e => exact ⟨nofun, nofun⟩
    | ok p => exact ⟨fun _ => ⟨some p, rfl⟩, fun _ => ⟨p, rfl⟩⟩

namespace Convention

variable {config : Config} {c : Convention}

/-- A configuration has a convention exactly if its header selector and its pattern of branch names
can be read: the patterns of footers always can. -/
theorem exists_ofConfig_iff :
    (∃ c, ofConfig config = .ok c) ↔
      (∃ found, config.messages.selector?.mapM readSelector = .ok found) ∧
      ∃ found, readIssuePattern config.branches config.messages = .ok found := by
  constructor
  · rintro ⟨c, h⟩
    obtain ⟨selector, hselector, h⟩ := bind_eq_ok.1 h
    obtain ⟨footers, -, h⟩ := bind_eq_ok.1 h
    obtain ⟨issueFooter, -, h⟩ := bind_eq_ok.1 h
    obtain ⟨issuePattern, hissuePattern, -⟩ := bind_eq_ok.1 h
    exact ⟨⟨selector, hselector⟩, issuePattern, hissuePattern⟩
  · rintro ⟨⟨selector, hselector⟩, issuePattern, hissuePattern⟩
    obtain ⟨footers, hfooters⟩ :=
      exists_mapM_eq_ok (config.messages.footers.entries.filter (·.2.key != ""))
      fun e _ => FooterReader.ofStyle_eq_ok e.1 e.2
    obtain ⟨issueFooter, hissueFooter⟩ := exists_option_mapM_eq_ok config.messages.issueStyle?
      fun style _ => IssueFooter.ofStyle_eq_ok style
    exact ⟨_, bind_eq_ok.2 ⟨selector, hselector, bind_eq_ok.2 ⟨footers, hfooters, bind_eq_ok.2
      ⟨issueFooter, hissueFooter, bind_eq_ok.2 ⟨issuePattern, hissuePattern, rfl⟩⟩⟩⟩⟩

/-- A configuration that passes its check has a convention. -/
theorem exists_ofConfig (h : config.validate = .ok ()) : ∃ c, ofConfig config = .ok c := by
  obtain ⟨_, hmessages, h⟩ := bind_eq_ok.1 h
  obtain ⟨_, hissue, -⟩ := bind_eq_ok.1 h
  exact exists_ofConfig_iff.2 ⟨(MessageRules.validate_eq_ok.1 hmessages).1,
    validateIssuePattern_eq_ok.1 hissue⟩

/-- What a convention holds is read off the rules of the configuration. -/
theorem ofConfig_spec (h : ofConfig config = .ok c) :
    config.messages.selector?.mapM readSelector = .ok c.selector ∧
      (config.messages.footers.entries.filter (·.2.key != "")).mapM
        (fun (name, style) => FooterReader.ofStyle name style) = .ok c.footers ∧
      config.messages.issueStyle?.mapM IssueFooter.ofStyle = .ok c.issueFooter ∧
      readIssuePattern config.branches config.messages = .ok c.issuePattern := by
  obtain ⟨selector, hselector, h⟩ := bind_eq_ok.1 h
  obtain ⟨footers, hfooters, h⟩ := bind_eq_ok.1 h
  obtain ⟨issueFooter, hissueFooter, h⟩ := bind_eq_ok.1 h
  obtain ⟨issuePattern, hissuePattern, h⟩ := bind_eq_ok.1 h
  cases h
  exact ⟨hselector, hfooters, hissueFooter, hissuePattern⟩

/-- The footers of the convention are those of the configuration that have keys. -/
theorem footers_of_ofConfig (h : ofConfig config = .ok c) :
    List.Forall₂ (fun e r => FooterReader.ofStyle e.1 e.2 = .ok r)
      (config.messages.footers.entries.filter (·.2.key != "")) c.footers :=
  mapM_eq_ok.1 (ofConfig_spec h).2.1

/-- The issue footer of the convention is that of the configuration. -/
theorem issueFooter_of_ofConfig (h : ofConfig config = .ok c) :
    c.issueFooter.map (·.style) = config.messages.issueStyle? ∧
      ∀ footer, c.issueFooter = some footer → IssueFooter.ofStyle footer.style = .ok footer := by
  obtain ⟨-, -, hfooter, -⟩ := ofConfig_spec h
  cases hstyle : config.messages.issueStyle? with
  | none =>
    rw [hstyle] at hfooter
    rw [← Except.ok.inj hfooter]
    exact ⟨rfl, nofun⟩
  | some style =>
    rw [hstyle, Option.mapM_some] at hfooter
    obtain ⟨footer, hread, hsome⟩ := bind_eq_ok.1 hfooter
    rw [← Except.ok.inj hsome]
    have hsame : footer.style = style := by
      obtain ⟨present, -, hmade⟩ := bind_eq_ok.1 hread
      cases hmade
      rfl
    exact ⟨congrArg some hsame, fun _ h => Option.some.inj h ▸ hsame ▸ hread⟩

/-- Recording footers of distinct names one after the other records each under its name. -/
theorem get?_readFooters_of_sorted {entries : List (String × FooterStyle)}
    {readers : List FooterReader}
    (h : List.Forall₂ (fun e r => FooterReader.ofStyle e.1 e.2 = .ok r) entries readers)
    (hsorted : entries.Pairwise (fun a b => a.1 < b.1)) (body name : String)
    (metadata : Dictionary String) :
    ((Convention.mk c.types c.scopes c.selector readers c.issueFooter c.issuePattern c.skip
      c.skipDetached
      c.disableIssue).readFooters body metadata).get? name =
        ((entries.lookup name).bind (·.valueIn? body.toList)).or (metadata.get? name) := by
  induction h generalizing metadata with
  | nil => rfl
  | @cons e r entries readers hhead _ ih =>
    obtain ⟨first, style⟩ := e
    obtain ⟨hfirst, hrest⟩ := List.pairwise_cons.1 hsorted
    obtain ⟨rfl, hvalue⟩ := FooterReader.of_ofStyle hhead
    have hlookup : List.lookup r.name entries = none :=
      List.lookup_eq_none_iff.2 fun e he => by simpa using String.ne_of_lt (hfirst e he)
    unfold readFooters at ih ⊢
    dsimp only at ih hvalue ⊢
    rw [List.foldl_cons, ih hrest, hvalue, lookup_cons]
    by_cases hname : name = r.name
    · rw [if_pos hname, hname, hlookup]
      cases hfound : style.valueIn? body.toList <;> simp [hfound, Dictionary.get?_insert]
    · rw [if_neg hname]
      cases style.valueIn? body.toList with
      | none => rfl
      | some value => simp only [Dictionary.get?_insert, if_neg hname]

/-- What is recorded under a name is what the footer of that name says. -/
theorem get?_readFooters (h : ofConfig config = .ok c) (body name : String)
    (metadata : Dictionary String) :
    (c.readFooters body metadata).get? name =
      (config.messages.valueIn? name body.toList).or (metadata.get? name) := by
  have hsorted := config.messages.footers.sorted
  refine (get?_readFooters_of_sorted (c := c) (footers_of_ofConfig h) (hsorted.filter _) body name
    metadata).trans ?_
  rw [Dictionary.lookup_filter (fun style => style.key != "") name hsorted]
  rfl

/-! ## What is read off a message -/

/-- What the header says does not depend on the body. -/
theorem ofHeader_eq (header body : String) :
    ofHeader header body = { ofHeader header "" with body } := by
  unfold ofHeader
  split <;> rfl

theorem ofHeader_metadata (header body : String) : (ofHeader header body).metadata = ∅ := by
  unfold ofHeader
  split <;> rfl

/-- The body of a message as it is read. -/
def bodyText (body : String) : List Char := Text.dropReturns body.toList

/-- Whether a header and a body say that something breaks. -/
def saysBreaking (header : CommitMessage) (body : List Char) : Bool :=
  header.breaking || (breakingIn? body).isSome

/-- What a header and a body say of what breaks: the footer's value, else the description that is
marked. -/
def breakingText? (rules : MessageRules) (header : CommitMessage) (body : List Char) :
    Option String :=
  (breakingIn? body).or
    (if header.breaking then some header.description else rules.valueIn? breakingName body)

/-- Recording what breaks changes nothing else. -/
theorem recordBreaking_spec (m : CommitMessage) :
    (recordBreaking m).type = m.type ∧ (recordBreaking m).scope = m.scope ∧
      (recordBreaking m).description = m.description ∧
      (recordBreaking m).breaking = (m.breaking || (breakingIn? m.body.toList).isSome) ∧
      (recordBreaking m).breakingMessage? = (breakingIn? m.body.toList).or
        (if m.breaking then some m.description else m.breakingMessage?) ∧
      (recordBreaking m).issue? = m.issue? := by
  have hnames : issueName ≠ breakingName := by decide
  obtain ⟨type, scope, description, body, breaking, metadata⟩ := m
  simp only [recordBreaking, footer?_eq]
  cases breaking <;> cases hfooter : footerIn? breakingKey false body.toList <;>
    simp [breakingIn?, hfooter, CommitMessage.breakingMessage?, CommitMessage.issue?,
      Dictionary.get?_insert, hnames]

theorem recordBreaking_body (m : CommitMessage) : (recordBreaking m).body = m.body := by
  unfold recordBreaking
  dsimp only
  split <;> split <;> rfl

/-- What a message says apart from its footers comes from its header and its body. -/
theorem of_parse {subject body : String} {m : CommitMessage} (hm : c.parse subject body = .ok m) :
    ∃ header, c.header subject = .ok header ∧ m.type = (ofHeader header "").type ∧
      m.scope = (ofHeader header "").scope ∧ m.description = (ofHeader header "").description ∧
      m.body = String.ofList (bodyText body) := by
  obtain ⟨header, hheader, hm⟩ := bind_eq_ok.1 hm
  dsimp only at hm
  rw [ofHeader_eq] at hm
  cases hm
  obtain ⟨htype, hscope, hdescription, -⟩ := recordBreaking_spec
    { ofHeader header "" with
      body := String.ofList (Text.dropReturns body.toList)
      metadata :=
        c.readFooters (String.ofList (Text.dropReturns body.toList)) (ofHeader header "").metadata }
  exact ⟨header, hheader, htype, hscope, hdescription, recordBreaking_body _⟩

/-- Whether something breaks comes from the header and the body, whatever footers are looked for. -/
theorem breaking_of_parse {subject header body : String} {m : CommitMessage}
    (hheader : c.header subject = .ok header) (hm : c.parse subject body = .ok m) :
    m.breaking = saysBreaking (ofHeader header "") (bodyText body) := by
  obtain ⟨header', hheader', hm⟩ := bind_eq_ok.1 hm
  cases hheader.symm.trans hheader'
  dsimp only at hm
  rw [ofHeader_eq] at hm
  cases hm
  obtain ⟨-, -, -, hbreaking, -⟩ := recordBreaking_spec
    { ofHeader header "" with
      body := String.ofList (Text.dropReturns body.toList)
      metadata :=
        c.readFooters (String.ofList (Text.dropReturns body.toList)) (ofHeader header "").metadata }
  rw [String.toList_ofList] at hbreaking
  exact hbreaking

/-- What is read off a message: the parts of its header, and what the footers of its body say. -/
theorem parse_spec (h : ofConfig config = .ok c) {subject body : String} {m : CommitMessage}
    (hm : c.parse subject body = .ok m) :
    ∃ header, c.header subject = .ok header ∧
      m.type = (ofHeader header "").type ∧ m.scope = (ofHeader header "").scope ∧
      m.description = (ofHeader header "").description ∧
      m.breaking = saysBreaking (ofHeader header "") (bodyText body) ∧
      m.breakingMessage? = breakingText? config.messages (ofHeader header "") (bodyText body) ∧
      m.issue? = config.messages.valueIn? issueName (bodyText body) := by
  obtain ⟨header, hheader, hm⟩ := bind_eq_ok.1 hm
  have hnone : (ofHeader header "").metadata = ∅ := ofHeader_metadata header ""
  dsimp only at hm
  rw [ofHeader_eq] at hm
  cases hm
  obtain ⟨htype, hscope, hdescription, hbreaking, htext, hissue⟩ := recordBreaking_spec
    { ofHeader header "" with
      body := String.ofList (Text.dropReturns body.toList)
      metadata :=
        c.readFooters (String.ofList (Text.dropReturns body.toList)) (ofHeader header "").metadata }
  simp only [String.toList_ofList] at hbreaking htext
  refine ⟨header, hheader, htype, hscope, hdescription, hbreaking, htext.trans ?_, hissue.trans ?_⟩
  · simp only [CommitMessage.breakingMessage?, get?_readFooters h, hnone, Dictionary.get?_empty,
      Option.or_none, String.toList_ofList]
    rfl
  · simp only [CommitMessage.issue?, get?_readFooters h, hnone, Dictionary.get?_empty,
      Option.or_none, String.toList_ofList]
    rfl

/-- A message is taken apart where a header is found. -/
theorem exists_parse {subject header : String} (h : c.header subject = .ok header) (body : String) :
    ∃ m, c.parse subject body = .ok m :=
  ⟨_, bind_eq_ok.2 ⟨header, h, rfl⟩⟩

/-- A checked type is not empty. -/
theorem ne_of_validateType {type : String} (h : c.validateType type = .ok ()) : type ≠ "" := by
  rintro rfl
  rw [validateType, decide_eq_true rfl, Bool.true_or, if_pos rfl] at h
  cases h

/-- What a message that passes the check is like. -/
theorem of_validate {message : String} (h : c.validate message = .ok ()) :
    ∃ m header, c.parse (splitMessage message).1 (splitMessage message).2 = .ok m ∧
      c.header (splitMessage message).1 = .ok header ∧ Header.isPlausible header.toList = true ∧
      c.validateType m.type = .ok () ∧ c.validateScope m.scope = .ok () ∧
      startsLower m.description.toList = true := by
  obtain ⟨m, hm, h⟩ := bind_eq_ok.1 h
  obtain ⟨header, hheader, h⟩ := bind_eq_ok.1 h
  refine ⟨m, header, hm, hheader, ?_⟩
  cases hform : Header.isPlausible header.toList with
  | false =>
    rw [hform] at h
    cases h
  | true =>
    rw [hform] at h
    obtain ⟨_, htype, h⟩ := bind_eq_ok.1 h
    obtain ⟨_, hscope, h⟩ := bind_eq_ok.1 h
    cases hlower : startsLower m.description.toList with
    | false =>
      rw [hlower] at h
      cases h
    | true => exact ⟨rfl, htype, hscope, rfl⟩

end Convention

end ConventionalRelease
