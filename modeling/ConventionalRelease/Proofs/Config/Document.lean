import ConventionalRelease.Config.Document
import ConventionalRelease.Proofs.Document.Merge
import Mathlib.Data.List.Forall2

/-!
# Configurations as documents, and back

What a configuration is written as is read back as that configuration, also where it is merged over
what another one is written as: each field that is written takes the place of the one below, a field
is left out only where nothing is below, and lists take the place of lists. Footers are merged name
by name, so those below have to be among the others (`Config.ofDocument?_merge`).
-/

namespace ConventionalRelease

namespace Document

section
variable {α : Type} {read : Document → Option α} {change : Document} {a : α}

/-- What a value is written as is read as that value, whatever it is merged over. -/
structure Replaces (read : Document → Option α) (change : Document) (a : α) : Prop where
  isNull : change.isNull = false
  read_merge : ∀ base : Document, read (base.merge change) = some a

/-- A single value or a list takes the place of whatever it is merged over. -/
theorem Replaces.of_isLeaf (hleaf : change.isLeaf = true) (hread : read change = some a) :
    Replaces read change a where
  isNull := by cases change <;> first | rfl | cases hleaf
  read_merge base := by
    rw [merge_of_not_mapping]
    · exact hread
    · cases change <;> first | rfl | cases hleaf
    · rintro _ changes - rfl
      cases hleaf

theorem Replaces.read_eq (h : Replaces read change a) : read change = some a := by
  have hnull : null.merge change = change := by
    refine merge_of_not_mapping h.isNull fun fields changes hfields => ?_
    cases hfields
  rw [← hnull, h.read_merge]

/-- A field that is written is read, whatever is below. -/
theorem Replaces.fieldOr_merge (h : Replaces read change a) {fields : List (String × Document)}
    {key : String} (hfield : fields.lookup key = some change) (base : Document) (place : Nat)
    (default : α) :
    (base.merge (mapping fields)).fieldOr place key read default = some a := by
  have hplain : (mapping fields).fieldOr place key read default = some a := by
    rw [fieldOr, field?, hfield]
    exact h.read_eq
  cases base with
  | mapping below =>
    rw [merge, fieldOr, field?]
    cases hbelow : below.lookup key with
    | some value =>
      rw [lookup_merge_of_some fields hbelow, hfield]
      exact h.read_merge value
    | none =>
      rw [lookup_merge_of_none hbelow hfield h.isNull]
      exact h.read_eq
  | _ => exact hplain

/-- A field that is written over another one is read as what both give together. -/
theorem fieldOr_merge_of_some {fields below : List (String × Document)} {key : String}
    {value : Document} (hread : read (value.merge change) = some a)
    (hfield : fields.lookup key = some change) (hbelow : below.lookup key = some value)
    (place : Nat) (default : α) :
    ((mapping below).merge (mapping fields)).fieldOr place key read default = some a := by
  rw [merge, fieldOr, field?, lookup_merge_of_some fields hbelow, hfield]
  exact hread

/-- A field that is not written is read as it is below. -/
theorem fieldOr_merge_of_none {fields below : List (String × Document)} {key : String}
    (hfield : fields.lookup key = none) (place : Nat) (default : α) :
    ((mapping below).merge (mapping fields)).fieldOr place key read default =
      (mapping below).fieldOr place key read default := by
  have hfilter : (fields.filter (!·.2.isNull)).lookup key = none :=
    List.lookup_eq_none_iff.2 fun e he =>
      List.lookup_eq_none_iff.1 hfield e (List.mem_filter.1 he).1
  rw [merge, fieldOr, field?, fieldOr, field?, lookup_adopt, lookup_mergeFields, hfield, hfilter]
  cases below.lookup key <;> rfl

end

theorem isRecord_merge (base : Document) (fields : List (String × Document)) (size : Nat) :
    (base.merge (mapping fields)).isRecord size = true := by
  cases base <;> rfl

/-- What is written item by item is read item by item. -/
theorem listOf?_map {α : Type} {write : α → Document} {read : Document → Option α}
    (h : ∀ a, read (write a) = some a) (items : List α) :
    listOf? read (list (items.map write)) = some items := by
  rw [listOf?]
  induction items with
  | nil => rfl
  | cons item items ih =>
    rw [List.map_cons, List.mapM_cons, h, ih]
    rfl

theorem replaces_text (s : String) : Replaces text? (text s) s := .of_isLeaf rfl rfl

theorem replaces_bool (b : Bool) : Replaces bool? (bool b) b := .of_isLeaf rfl rfl

theorem replaces_texts (items : List String) : Replaces texts? (.texts items) items := by
  have htext : ∀ s, text? (text s) = some s := fun _ => rfl
  exact .of_isLeaf rfl (listOf?_map htext items)

end Document

open Document

/-! ## Records -/

theorem VersioningRules.replaces (rules : VersioningRules) :
    Replaces ofDocument? rules.toDocument rules where
  isNull := rfl
  read_merge base := by
    dsimp only [ofDocument?, toDocument]
    rw [isRecord_merge, (replaces_texts rules.major).fieldOr_merge rfl,
      (replaces_texts rules.minor).fieldOr_merge rfl,
      (replaces_texts rules.patch).fieldOr_merge rfl,
      (replaces_bool rules.ignoreUnknown).fieldOr_merge rfl]
    rfl

theorem TagRules.replaces (rules : TagRules) : Replaces ofDocument? rules.toDocument rules where
  isNull := rfl
  read_merge base := by
    dsimp only [ofDocument?, toDocument]
    rw [isRecord_merge, (replaces_text rules.pattern).fieldOr_merge rfl,
      (replaces_text rules.filter).fieldOr_merge rfl]
    rfl

theorem BranchRules.replaces (rules : BranchRules) :
    Replaces ofDocument? rules.toDocument rules where
  isNull := rfl
  read_merge base := by
    dsimp only [ofDocument?, toDocument]
    rw [isRecord_merge, (replaces_text rules.before).fieldOr_merge rfl,
      (replaces_text rules.after).fieldOr_merge rfl,
      (replaces_bool rules.disableIssue).fieldOr_merge rfl,
      (replaces_texts rules.skip).fieldOr_merge rfl,
      (replaces_bool rules.skipDetached).fieldOr_merge rfl]
    rfl

theorem FooterStyle.replaces (style : FooterStyle) :
    Replaces ofDocument? style.toDocument style where
  isNull := rfl
  read_merge base := by
    dsimp only [ofDocument?, toDocument]
    rw [isRecord_merge, (replaces_text style.key).fieldOr_merge rfl,
      (replaces_texts style.synonyms).fieldOr_merge rfl,
      (replaces_bool style.useHash).fieldOr_merge rfl,
      (replaces_text style.valuePrefix).fieldOr_merge rfl]
    rfl

theorem SectionKind.ofDocument?_word (kind : SectionKind) :
    ofDocument? (text kind.word) = some kind := by
  cases kind <;> rfl

/-- A section is written with its types, or without them when there are none. -/
theorem SectionRule.ofDocument?_toDocument (rule : SectionRule) :
    ofDocument? rule.toDocument = some rule := by
  obtain ⟨name, kind, types⟩ := rule
  have hkind := SectionKind.ofDocument?_word kind
  have htypes := (replaces_texts types).read_eq
  by_cases hnone : types = []
  · subst hnone
    simp [ofDocument?, toDocument, isRecord, fieldOr, field?, text?, hkind, lookup_cons]
  · simp [ofDocument?, toDocument, isRecord, fieldOr, field?, text?, hkind, hnone, htypes,
      lookup_cons]

/-- Sections take the place of sections as a whole. -/
theorem replaces_sections (sections : List SectionRule) :
    Replaces sectionsOfDocument? (sectionsToDocument sections) sections where
  isNull := rfl
  read_merge base := by
    have hsections :
        Replaces (listOf? SectionRule.ofDocument?) (list (sections.map (·.toDocument))) sections :=
      .of_isLeaf rfl (listOf?_map SectionRule.ofDocument?_toDocument sections)
    rw [sectionsOfDocument?, sectionsToDocument, isRecord_merge, hsections.fieldOr_merge rfl]
    rfl

/-- A record of one field takes the place of any other. -/
theorem Document.Replaces.soleField {α : Type} {read : Document → Option α}
    {change : Document} {a : α} (h : Replaces read change a) (key : String) (default : α) :
    Replaces (soleField? key read default) (mapping [(key, change)]) a where
  isNull := rfl
  read_merge base := by
    rw [soleField?, isRecord_merge, h.fieldOr_merge (by simp)]
    rfl

/-! ## Footers -/

/-- Of entries with distinct keys and values those are adopted whose keys are not there yet. -/
theorem Document.adopt_eq_append (fields : List (String × Document))
    {layer : List (String × Document)} (hkeys : (layer.map (·.1)).Nodup)
    (hnull : ∀ e ∈ layer, e.2.isNull = false) :
    adopt fields layer = fields ++ layer.filter fun e => (fields.lookup e.1).isNone := by
  induction layer generalizing fields with
  | nil => simp [adopt]
  | cons entry layer ih =>
    obtain ⟨key, value⟩ := entry
    obtain ⟨hkey, hkeys⟩ := List.nodup_cons.1 hkeys
    obtain ⟨hvalue, hnull⟩ := List.forall_mem_cons.1 hnull
    rw [adopt, hvalue, Bool.false_or]
    cases hthere : fields.lookup key with
    | some old =>
      rw [Option.isSome_some, if_pos rfl, ih fields hkeys hnull,
        List.filter_cons_of_neg (by simp [hthere])]
    | none =>
      rw [Option.isSome_none, if_neg Bool.false_ne_true, ih _ hkeys hnull,
        List.filter_cons_of_pos (by simp [hthere]), List.append_assoc]
      refine congrArg (fields ++ (key, value) :: ·) (List.filter_congr fun e he => ?_)
      have hother : e.1 ≠ key := fun h => hkey (List.mem_map.2 ⟨e, he, h⟩)
      rw [List.lookup_append, lookup_cons, if_neg hother]
      cases fields.lookup e.1 <;> rfl

/-- Footers are read entry by entry. -/
theorem footersOfDocument?_eq_some {fields : List (String × Document)}
    {footers : Dictionary FooterStyle} :
    footersOfDocument? (mapping fields) = some footers ↔
      ∃ entries, Dictionary.ofList entries = footers ∧
      List.Forall₂ (fun field e => field.1 = e.1 ∧ FooterStyle.ofDocument? field.2 = some e.2)
        fields entries := by
  have hread (entries : List (String × FooterStyle)) :
      fields.mapM (fun field => do return (field.1, ← FooterStyle.ofDocument? field.2)) =
        some entries ↔
        List.Forall₂ (fun field e => field.1 = e.1 ∧ FooterStyle.ofDocument? field.2 = some e.2)
          fields entries := by
    induction fields generalizing entries with
    | nil => simp [eq_comm]
    | cons field fields ih =>
      rw [List.mapM_cons, List.forall₂_cons_left_iff]
      cases hstyle : FooterStyle.ofDocument? field.2 with
      | none => simp
      | some style =>
        simp only [Option.pure_def, Option.bind_eq_bind, Option.bind_some, Option.bind_eq_some_iff]
        constructor
        · rintro ⟨rest, hrest, h⟩
          exact ⟨_, rest, ⟨rfl, rfl⟩, (ih rest).1 hrest, (Option.some.inj h).symm⟩
        · rintro ⟨⟨name, _⟩, rest, ⟨rfl, h⟩, hrest, rfl⟩
          cases h
          exact ⟨rest, (ih rest).2 hrest, rfl⟩
  have hfooters : footersOfDocument? (mapping fields) =
      (fields.mapM fun field => do return (field.1, ← FooterStyle.ofDocument? field.2)) >>=
        fun entries => some (.ofList entries) := rfl
  rw [hfooters, Option.bind_eq_bind, Option.bind_eq_some_iff]
  constructor
  · rintro ⟨entries, hentries, h⟩
    exact ⟨entries, Option.some.inj h, (hread entries).1 hentries⟩
  · rintro ⟨entries, rfl, hentries⟩
    exact ⟨entries, (hread entries).2 hentries, rfl⟩

/-- Footers over one that is among them: it is merged with the one below, and the others are
adopted. -/
theorem merge_footersToDocument {footers : Dictionary FooterStyle} {name : String}
    {style : FooterStyle} {before after : List (String × FooterStyle)}
    (h : footers.entries = before ++ (name, style) :: after) (below : Document) :
    (mapping [(name, below)]).merge (footersToDocument footers) =
      mapping ((name, below.merge style.toDocument) :: (before ++ after).map fun e =>
        (e.1, e.2.toDocument)) := by
  have hlayer : footersToDocument footers =
      mapping (footers.entries.map fun e => (e.1, e.2.toDocument)) := rfl
  have hkeys : ((footers.entries.map fun e => (e.1, e.2.toDocument)).map (·.1)).Nodup := by
    rw [List.map_map]
    exact footers.nodup_names
  have hnull : ∀ e ∈ footers.entries.map (fun e => (e.1, e.2.toDocument)), e.2.isNull = false := by
    intro e he
    obtain ⟨_, -, rfl⟩ := List.mem_map.1 he
    rfl
  have hnames := footers.nodup_names
  rw [h, List.map_append, List.map_cons, List.nodup_middle, List.nodup_cons,
    ← List.map_append] at hnames
  have hothers : ∀ e ∈ before ++ after, e.1 ≠ name :=
    fun e he hname => hnames.1 (List.mem_map.2 ⟨e, he, hname⟩)
  have hfound : (footers.entries.map fun e => (e.1, e.2.toDocument)).lookup name =
      some style.toDocument := by
    rw [Dictionary.lookup_eq_some_iff_mem hkeys, h]
    simp
  have hkept : ∀ others : List (String × FooterStyle), (∀ e ∈ others, e.1 ≠ name) →
      (others.map fun e => (e.1, e.2.toDocument)).filter (fun e =>
        ([(name, below.merge style.toDocument)].lookup e.1).isNone) = others.map fun e =>
          (e.1, e.2.toDocument) := by
    intro others hne
    refine List.filter_eq_self.2 fun e he => ?_
    obtain ⟨o, ho, rfl⟩ := List.mem_map.1 he
    rw [lookup_cons, if_neg (hne o ho)]
    rfl
  rw [hlayer, merge, mergeFields, mergeFields, hfound, adopt_eq_append _ hkeys hnull, h,
    List.map_append, List.map_cons, List.filter_append, List.filter_cons_of_neg (by simp),
    hkept before fun e he => hothers e (List.mem_append_left _ he), hkept after fun e he =>
      hothers e (List.mem_append_right _ he), List.map_append]
  rfl

/-- Footers merged over one that is among them are read as they are. -/
theorem footersOfDocument?_merge {footers : Dictionary FooterStyle} {name : String}
    (h : (footers.get? name).isSome) (below : Document) :
    footersOfDocument? ((mapping [(name, below)]).merge (footersToDocument footers)) =
      some footers := by
  obtain ⟨style, hstyle⟩ := Option.isSome_iff_exists.1 h
  obtain ⟨before, after, hentries, -⟩ := List.lookup_eq_some_iff.1 hstyle
  have hperm : ((name, style) :: (before ++ after)).Perm footers.entries := by
    rw [hentries]
    exact List.perm_middle.symm
  rw [merge_footersToDocument hentries]
  refine footersOfDocument?_eq_some.2 ⟨_, Dictionary.ofList_of_perm hperm,
    .cons ⟨rfl, style.replaces.read_merge below⟩ ?_⟩
  exact List.forall₂_map_left_iff.2 (List.forall₂_same.2 fun e _ => ⟨rfl, e.2.replaces.read_eq⟩)

/-! ## Configurations -/

theorem replaces_optionalText (s : String) :
    Replaces optionalText? (text s) (some s) := .of_isLeaf rfl rfl

/-- Rules for messages over the default ones are read as they are, if the default footer is among
theirs. -/
theorem MessageRules.ofDocument?_merge {rules : MessageRules}
    (h : (rules.footers.get? issueName).isSome) :
    ofDocument? ((toDocument {}).merge rules.toDocument) = some rules := by
  have hfooters := footersOfDocument?_merge h
    (FooterStyle.toDocument { key := "jira", synonyms := ["Jira", "JIRA"] })
  have hscopes := (replaces_texts rules.scopes).soleField "values" []
  have hissue := (replaces_text rules.issuePattern).soleField "regex" ""
  obtain ⟨types, selector, scopes, footers, issuePattern⟩ := rules
  cases selector with
  | none =>
    dsimp only [ofDocument?, toDocument]
    rw [isRecord_merge, (replaces_texts types).fieldOr_merge rfl, fieldOr_merge_of_none rfl,
      hscopes.fieldOr_merge rfl, fieldOr_merge_of_some hfooters rfl rfl, hissue.fieldOr_merge rfl]
    rfl
  | some s =>
    dsimp only [ofDocument?, toDocument]
    rw [isRecord_merge, (replaces_texts types).fieldOr_merge rfl,
      (replaces_optionalText s).fieldOr_merge rfl, hscopes.fieldOr_merge rfl,
      fieldOr_merge_of_some hfooters rfl rfl, hissue.fieldOr_merge rfl]
    rfl

/-- A configuration over the default one is read as it is, if the default footer is among its
footers. -/
theorem Config.ofDocument?_merge {config : Config}
    (h : (config.messages.footers.get? issueName).isSome) :
    ofDocument? ((toDocument {}).merge config.toDocument) = some config := by
  have hmessages := MessageRules.ofDocument?_merge h
  have hsections := replaces_sections config.sections
  obtain ⟨version, level, versioning, tag, sections, branches, messages⟩ := config
  cases level with
  | none =>
    dsimp only [ofDocument?, toDocument]
    rw [isRecord_merge, (replaces_text version).fieldOr_merge rfl, fieldOr_merge_of_none rfl,
      versioning.replaces.fieldOr_merge rfl, tag.replaces.fieldOr_merge rfl,
      hsections.fieldOr_merge rfl, branches.replaces.fieldOr_merge rfl,
      fieldOr_merge_of_some hmessages rfl rfl]
    rfl
  | some s =>
    dsimp only [ofDocument?, toDocument]
    rw [isRecord_merge, (replaces_text version).fieldOr_merge rfl,
      (replaces_optionalText s).fieldOr_merge rfl, versioning.replaces.fieldOr_merge rfl,
      tag.replaces.fieldOr_merge rfl, hsections.fieldOr_merge rfl,
      branches.replaces.fieldOr_merge rfl, fieldOr_merge_of_some hmessages rfl rfl]
    rfl

end ConventionalRelease
