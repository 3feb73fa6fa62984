import ConventionalRelease.Proofs.Release.Outline

/-!
# Checks of the sections

Sections are gone through when a configuration is checked, and again when an outline of the release
notes is drawn up. The outline can be drawn up exactly if no type is listed twice and at most one
section is for breaking changes (`Outline.exists_ofSections_iff`). A configuration without another
fault passes its check exactly if the outline can be drawn up, and else fails with the error of the
outline (`Config.validate_agrees_ofSections`).
-/

namespace ConventionalRelease

namespace Outline

variable {draft next : Draft} {rule : SectionRule} {types : List String}
  {sections rules : List SectionRule}

/-- The types that sections for commits list, as often as they are listed. -/
def listedTypes (sections : List SectionRule) : List String :=
  (sections.filter (·.kind = .commits)).flatMap (·.commitTypes)

/-- The number of the sections for breaking changes. -/
def breakingCount (sections : List SectionRule) : Nat :=
  sections.countP (·.kind = .breakingChanges)

theorem listedTypes_append (sections rules : List SectionRule) :
    listedTypes (sections ++ rules) = listedTypes sections ++ listedTypes rules := by
  rw [listedTypes, List.filter_append, List.flatMap_append]
  rfl

theorem breakingCount_append (sections rules : List SectionRule) :
    breakingCount (sections ++ rules) = breakingCount sections + breakingCount rules :=
  List.countP_append

theorem mem_listedTypes {type : String} :
    type ∈ listedTypes sections ↔ ∃ rule ∈ sections, rule.Lists type := by
  simp only [listedTypes, List.mem_flatMap, List.mem_filter, decide_eq_true_eq,
    SectionRule.Lists, and_assoc]

/-- What is known of the sections gone through tells which types they list. -/
theorem Draft.Sound.get?_eq_none_iff (h : draft.Sound) {type : String} :
    draft.owners.get? type = none ↔ type ∉ listedTypes draft.sections := by
  rw [Option.eq_none_iff_forall_ne_some, mem_listedTypes]
  constructor
  · rintro hnone ⟨rule, hrule, hlists⟩
    obtain ⟨index, hindex⟩ := List.mem_iff_getElem?.1 hrule
    exact hnone index ((h.owners type index).2 ⟨rule, hindex, hlists⟩)
  · rintro hnot index hindex
    obtain ⟨rule, hrule, hlists⟩ := (h.owners type index).1 hindex
    exact hnot ⟨rule, List.mem_of_getElem? hrule, hlists⟩

/-- What is known of the sections gone through tells whether one is for breaking changes. -/
theorem Draft.Sound.breaking_eq_none_iff (h : draft.Sound) :
    draft.breaking = none ↔ breakingCount draft.sections = 0 := by
  rw [breakingCount, List.countP_eq_length_filter, ← List.length_map (·.name), h.breaking]
  cases draft.breaking <;> simp

/-- Types can be given to a section if none of them is listed twice and no section has one of
them. -/
theorem Draft.exists_claims_iff :
    (∃ next, types.foldlM (Draft.claim rule) draft = .ok next) ↔
      types.Nodup ∧ ∀ type ∈ types, draft.owners.get? type = none := by
  induction types generalizing draft with
  | nil => exact ⟨fun _ => ⟨.nil, nofun⟩, fun _ => ⟨draft, rfl⟩⟩
  | cons first types ih =>
    simp only [List.foldlM_cons, bind_eq_ok, Draft.claim_eq_ok]
    constructor
    · rintro ⟨next, _, ⟨hfree, rfl⟩, hnext⟩
      obtain ⟨hnodup, hothers⟩ := ih.1 ⟨next, hnext⟩
      simp only [Dictionary.get?_insert] at hothers
      refine ⟨List.nodup_cons.2 ⟨fun hfirst => ?_, hnodup⟩,
        List.forall_mem_cons.2 ⟨hfree, fun type htype => ?_⟩⟩
      · exact nomatch (if_pos rfl).symm.trans (hothers first hfirst)
      · have hother := hothers type htype
        split at hother
        · cases hother
        · exact hother
    · rintro ⟨hnodup, hfree⟩
      obtain ⟨hfirst, hnodup⟩ := List.nodup_cons.1 hnodup
      obtain ⟨hfree, hothers⟩ := List.forall_mem_cons.1 hfree
      have hrest : ∀ type ∈ types,
          (draft.owners.insert first draft.sections.length).get? type = none := by
        intro type htype
        rw [Dictionary.get?_insert, if_neg (ne_of_mem_of_not_mem htype hfirst)]
        exact hothers type htype
      have hclaimed := @ih { draft with owners := draft.owners.insert first draft.sections.length }
      obtain ⟨next, hnext⟩ := hclaimed.2 ⟨hnodup, hrest⟩
      exact ⟨next, _, ⟨hfree, rfl⟩, hnext⟩

/-- No type is listed twice, and at most one section is for breaking changes. -/
def NoClash (sections : List SectionRule) : Prop :=
  (listedTypes sections).Nodup ∧ breakingCount sections ≤ 1

theorem NoClash.of_append (h : NoClash (sections ++ rules)) : NoClash sections := by
  obtain ⟨hnodup, hcount⟩ := h
  rw [listedTypes_append] at hnodup
  rw [breakingCount_append] at hcount
  exact ⟨(List.nodup_append.1 hnodup).1, by omega⟩

/-- One more section can be gone through exactly if there is no clash with it. -/
theorem Draft.exists_add_iff (hsound : draft.Sound) (hclear : NoClash draft.sections) :
    (∃ next, draft.add rule = .ok next) ↔ NoClash (draft.sections ++ [rule]) := by
  unfold NoClash
  rw [listedTypes_append, breakingCount_append, Draft.add]
  cases hkind : rule.kind with
  | breakingChanges =>
    have htypes : listedTypes [rule] = [] := by simp [listedTypes, hkind]
    have hcount : breakingCount [rule] = 1 := by simp [breakingCount, hkind]
    rw [htypes, hcount, List.append_nil, and_iff_right hclear.1]
    cases hbreaking : draft.breaking with
    | none =>
      have hnone : breakingCount draft.sections = 0 := hsound.breaking_eq_none_iff.1 hbreaking
      exact ⟨fun _ => by omega, fun _ => ⟨_, rfl⟩⟩
    | some first =>
      have hsome : breakingCount draft.sections ≠ 0 := by
        intro hzero
        rw [hsound.breaking_eq_none_iff.2 hzero] at hbreaking
        cases hbreaking
      constructor
      · rintro ⟨next, h⟩
        cases h
      · intro h
        omega
  | commits =>
    have htypes : listedTypes [rule] = rule.commitTypes := by simp [listedTypes, hkind]
    have hcount : breakingCount [rule] = 0 := by simp [breakingCount, hkind]
    have hclaims := @Draft.exists_claims_iff draft rule rule.commitTypes
    simp only [hsound.get?_eq_none_iff] at hclaims
    rw [htypes, hcount, Nat.add_zero, and_iff_left hclear.2, List.nodup_append]
    constructor
    · rintro ⟨next, h⟩
      obtain ⟨claimed, hclaimed, -⟩ := bind_eq_ok.1 h
      obtain ⟨hnodup, hnew⟩ := hclaims.1 ⟨claimed, hclaimed⟩
      exact ⟨hclear.1, hnodup, fun a ha b hb heq => hnew b hb (heq ▸ ha)⟩
    · rintro ⟨-, hnodup, hnew⟩
      obtain ⟨claimed, hclaimed⟩ :=
        hclaims.2 ⟨hnodup, fun type htype hlisted => hnew type hlisted type htype rfl⟩
      exact ⟨_, bind_eq_ok.2 ⟨claimed, hclaimed, rfl⟩⟩

/-- Sections can be gone through exactly if there is no clash with them. -/
theorem Draft.exists_adds_iff (hsound : draft.Sound) (hclear : NoClash draft.sections) :
    (∃ next, rules.foldlM Draft.add draft = .ok next) ↔ NoClash (draft.sections ++ rules) := by
  induction rules generalizing draft with
  | nil =>
    rw [List.append_nil]
    exact ⟨fun _ => hclear, fun _ => ⟨draft, rfl⟩⟩
  | cons rule rules ih =>
    simp only [List.foldlM_cons, bind_eq_ok]
    rw [← List.singleton_append, ← List.append_assoc]
    constructor
    · rintro ⟨next, added, hadd, hnext⟩
      obtain ⟨hsections, hadded⟩ := Draft.add_spec hsound hadd
      rw [← hsections]
      exact (ih hadded (hsections ▸ (Draft.exists_add_iff hsound hclear).1 ⟨added, hadd⟩)).1
        ⟨next, hnext⟩
    · intro h
      obtain ⟨added, hadd⟩ := (Draft.exists_add_iff hsound hclear).2 h.of_append
      obtain ⟨hsections, hadded⟩ := Draft.add_spec hsound hadd
      rw [← hsections] at h
      obtain ⟨next, hnext⟩ := (ih hadded h.of_append).2 h
      exact ⟨next, added, hadd, hnext⟩

/-- An outline can be drawn up exactly if no type is listed twice and at most one section is for
breaking changes. -/
theorem exists_ofSections_iff :
    (∃ outline, ofSections sections = .ok outline) ↔ NoClash sections := by
  have hempty : (∃ draft, sections.foldlM Draft.add {} = .ok draft) ↔ NoClash sections :=
    Draft.exists_adds_iff Draft.sound_empty ⟨List.nodup_nil, Nat.zero_le 1⟩
  rw [← hempty]
  constructor
  · rintro ⟨outline, h⟩
    obtain ⟨draft, hdraft, -⟩ := bind_eq_ok.1 h
    exact ⟨draft, hdraft⟩
  · rintro ⟨draft, hdraft⟩
    exact ⟨_, bind_eq_ok.2 ⟨draft, hdraft, rfl⟩⟩

/-- An outline cannot be drawn up only because of types or of sections for breaking changes. -/
theorem error_of_ofSections {e : ConfigError} (h : ofSections sections = .error e) :
    (∃ type first second, e = .duplicateType type first second) ∨
      ∃ first second, e = .severalBreaking first second := by
  rcases bind_eq_error.1 h with h | ⟨_, -, h⟩
  · obtain ⟨rule, -, draft, hadd⟩ := exists_of_foldlM_eq_error h
    unfold Draft.add at hadd
    split at hadd
    · split at hadd
      · cases hadd
        exact .inr ⟨_, _, rfl⟩
      · cases hadd
    · rcases bind_eq_error.1 hadd with hclaims | ⟨_, -, hadd⟩
      · obtain ⟨type, -, draft, hclaim⟩ := exists_of_foldlM_eq_error hclaims
        unfold Draft.claim at hclaim
        dsimp only at hclaim
        split at hclaim
        · cases hclaim
          exact .inl ⟨_, _, _, rfl⟩
        · cases hclaim
      · cases hadd
  · cases h

end Outline

namespace Config

/-- A configuration whose sections have names and that has no fault elsewhere passes its check, and
its outline can be drawn up, or both fail with the same error, which names a type or the sections
for breaking changes. They succeed exactly if no type is listed twice and at most one section is for
breaking changes. -/
theorem validate_agrees_ofSections {config : Config}
    (hnames : ∀ rule ∈ config.sections, rule.name ≠ "")
    (hmessages : config.messages.validate = .ok ())
    (hissue : validateIssuePattern config.branches config.messages = .ok ())
    (htag : config.tag.validate = .ok ()) :
    ((config.validate = .ok () ∧ ∃ outline, Outline.ofSections config.sections = .ok outline) ∨
      ∃ e, config.validate = .error e ∧ Outline.ofSections config.sections = .error e ∧
        ((∃ type first second, e = .duplicateType type first second) ∨
          ∃ first second, e = .severalBreaking first second)) ∧
    (config.validate = .ok () ↔
      (Outline.listedTypes config.sections).Nodup ∧ Outline.breakingCount config.sections ≤ 1) := by
  have hvalidate : config.validate = validateSections config.sections := by
    unfold validate
    rw [hmessages, hissue, htag]
    exact bind_pure (validateSections config.sections)
  rw [hvalidate]
  refine ⟨?_, ?_⟩
  · cases hsections : Outline.ofSections config.sections with
    | ok outline =>
      obtain ⟨_, hok⟩ :=
        (Outline.validateSections_agrees hnames).exists_ok_iff.2 ⟨outline, hsections⟩
      exact .inl ⟨hok, outline, rfl⟩
    | error e =>
      have hfails := (Outline.validateSections_agrees hnames).eq_error_iff.2 hsections
      exact .inr ⟨e, hfails, rfl, Outline.error_of_ofSections hsections⟩
  · rw [Outline.validateSections_eq_ok, and_iff_right hnames]
    exact Outline.exists_ofSections_iff

/-- A type that two sections list, between two sections for breaking changes. -/
def clashing : Config :=
  { sections :=
      [{ name := "Breaking", kind := .breakingChanges, commitTypes := ["feat"] },
        { name := "Features", kind := .commits, commitTypes := ["feat"] },
        { name := "Misc", kind := .commits, commitTypes := ["chore", "feat"] },
        { name := "More Breaking", kind := .breakingChanges }] }

/-- The type that is listed twice is found first, by the check and by the outline. -/
theorem validate_agrees_clashing :
    (∀ rule ∈ clashing.sections, rule.name ≠ "") ∧ clashing.messages.validate = .ok () ∧
      validateIssuePattern clashing.branches clashing.messages = .ok () ∧
        clashing.tag.validate = .ok () ∧
      clashing.validate = .error (.duplicateType "feat" "Features" "Misc") ∧
      Outline.ofSections clashing.sections = .error (.duplicateType "feat" "Features" "Misc") := by
  have hnames : ∀ rule ∈ clashing.sections, rule.name ≠ "" := by decide
  have hmessages : clashing.messages.validate = .ok () := by decide +kernel
  have hissue : validateIssuePattern clashing.branches clashing.messages = .ok () := by
    decide +kernel
  have htag : clashing.tag.validate = .ok () := by decide +kernel
  have hvalidate : clashing.validate = .error (.duplicateType "feat" "Features" "Misc") := by
    decide +kernel
  refine ⟨hnames, hmessages, hissue, htag, hvalidate, ?_⟩
  rcases (validate_agrees_ofSections hnames hmessages hissue htag).1 with
    ⟨hok, -⟩ | ⟨e, he, hsections, -⟩
  · exact nomatch hok.symm.trans hvalidate
  · rw [hsections, Except.error.inj (he.symm.trans hvalidate)]

end Config

end ConventionalRelease
