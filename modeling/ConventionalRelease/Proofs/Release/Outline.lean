import ConventionalRelease.Config.Validation
import ConventionalRelease.Proofs.Attempt
import ConventionalRelease.Proofs.Dictionary
import ConventionalRelease.Release.Outline

/-!
# What an outline says

An outline knows for each type the section that lists it (`Outline.ofSections_spec`), so no type is
listed twice (`Outline.exists_split_of_lists`). It is drawn up exactly when the check of the
sections finds no fault, and fails with the fault that is found (`Outline.validateSections_agrees`).
-/

namespace ConventionalRelease

/-- A section collects the commits of a type. -/
def SectionRule.Lists (rule : SectionRule) (type : String) : Prop :=
  rule.kind = .commits ∧ type ∈ rule.commitTypes

instance (rule : SectionRule) (type : String) : Decidable (rule.Lists type) :=
  inferInstanceAs (Decidable (_ ∧ _))

/-- The section with the number collects the commits of a type. -/
def Owns (sections : List SectionRule) (index : Nat) (type : String) : Prop :=
  ∃ rule, sections[index]? = some rule ∧ rule.Lists type

theorem owns_append {sections : List SectionRule} {rule : SectionRule} {index : Nat}
    {type : String} :
    Owns (sections ++ [rule]) index type ↔
      Owns sections index type ∨ index = sections.length ∧ rule.Lists type := by
  unfold Owns
  rcases Nat.lt_trichotomy index sections.length with hlt | rfl | hgt
  · rw [List.getElem?_append_left hlt]
    simp [Nat.ne_of_lt hlt]
  · simp
  · rw [List.getElem?_eq_none (by simp; omega), List.getElem?_eq_none (Nat.le_of_lt hgt)]
    simp [Nat.ne_of_gt hgt]

namespace Outline

variable {draft next : Draft} {rule : SectionRule} {types : List String} {type : String}

/-! ## Giving types to sections -/

/-- A type is given to a section if no section has it. -/
theorem Draft.claim_eq_ok :
    draft.claim rule type = .ok next ↔
      draft.owners.get? type = none ∧
        next = { draft with owners := draft.owners.insert type draft.sections.length } := by
  unfold Draft.claim
  cases draft.owners.get? type <;> simp [eq_comm]

/-- Types that are given to a section belong to it afterwards. No section has had them, and other
types stay where they are. -/
theorem Draft.claims_spec (h : types.foldlM (Draft.claim rule) draft = .ok next) :
    next.sections = draft.sections ∧ next.breaking = draft.breaking ∧
      (∀ type ∈ types, draft.owners.get? type = none) ∧
      ∀ type, next.owners.get? type =
        if type ∈ types then some draft.sections.length else draft.owners.get? type := by
  induction types generalizing draft with
  | nil =>
    cases h
    exact ⟨rfl, rfl, nofun, fun type => (if_neg List.not_mem_nil).symm⟩
  | cons first types ih =>
    rw [List.foldlM_cons] at h
    obtain ⟨_, hclaim, h⟩ := bind_eq_ok.1 h
    obtain ⟨hfree, rfl⟩ := Draft.claim_eq_ok.1 hclaim
    obtain ⟨hsections, hbreaking, hothers, howners⟩ := ih h
    simp only [Dictionary.get?_insert] at hothers howners
    refine ⟨hsections, hbreaking, ?_, fun type => ?_⟩
    · intro type htype
      rcases List.mem_cons.1 htype with rfl | htype
      · exact hfree
      · have hother := hothers type htype
        split at hother
        · cases hother
        · exact hother
    · rw [howners]
      by_cases hfirst : type = first <;> simp [hfirst]

/-- What is known of the sections gone through is right: each type belongs to the section that lists
it, and the section of breaking changes is the only one. -/
structure Draft.Sound (draft : Draft) : Prop where
  owners : ∀ type index, draft.owners.get? type = some index ↔ Owns draft.sections index type
  breaking : (draft.sections.filter (·.kind = .breakingChanges)).map (·.name) =
    draft.breaking.toList

theorem Draft.sound_empty : Draft.Sound {} where
  owners _ _ := by simp [Owns]
  breaking := rfl

/-- Going through one more section keeps what is known right. -/
theorem Draft.add_spec (hsound : draft.Sound) (h : draft.add rule = .ok next) :
    next.sections = draft.sections ++ [rule] ∧ next.Sound := by
  unfold Draft.add at h
  cases hkind : rule.kind with
  | breakingChanges =>
    rw [hkind] at h
    cases hbreaking : draft.breaking with
    | some first =>
      rw [hbreaking] at h
      cases h
    | none =>
      rw [hbreaking] at h
      cases h
      have hnone := hsound.breaking
      rw [hbreaking] at hnone
      refine ⟨rfl, ⟨fun type index => ?_, ?_⟩⟩
      · rw [owns_append, hsound.owners]
        simp [SectionRule.Lists, hkind]
      · rw [List.filter_append, List.map_append, hnone]
        simp [hkind]
  | commits =>
    rw [hkind] at h
    obtain ⟨claimed, hclaims, h⟩ := bind_eq_ok.1 h
    cases h
    obtain ⟨hsections, hbreaking, hfree, howners⟩ := Draft.claims_spec hclaims
    refine ⟨by rw [hsections], ⟨fun type index => ?_, ?_⟩⟩
    · dsimp only
      rw [hsections, owns_append, howners, ← hsound.owners]
      unfold SectionRule.Lists
      split
      · next htype => simp [hkind, htype, hfree type htype, eq_comm]
      · next htype => simp [htype]
    · dsimp only
      rw [hsections, hbreaking, List.filter_append, List.map_append, hsound.breaking]
      simp [hkind]

/-- Going through sections keeps what is known right. -/
theorem Draft.adds_spec {rules : List SectionRule} (hsound : draft.Sound)
    (h : rules.foldlM Draft.add draft = .ok next) :
    next.sections = draft.sections ++ rules ∧ next.Sound := by
  induction rules generalizing draft with
  | nil =>
    cases h
    exact ⟨(List.append_nil _).symm, hsound⟩
  | cons rule rules ih =>
    rw [List.foldlM_cons] at h
    obtain ⟨added, hadd, h⟩ := bind_eq_ok.1 h
    obtain ⟨hsections, hsound⟩ := Draft.add_spec hsound hadd
    obtain ⟨hrest, hsound⟩ := ih hsound h
    refine ⟨?_, hsound⟩
    rw [hrest, hsections, List.append_assoc]
    rfl

variable {sections : List SectionRule} {outline : Outline}

/-- Of two sections at most one is for breaking changes. -/
def BreaksOnce (sections : List SectionRule) : Prop :=
  sections.Pairwise fun rule other => rule.kind = .breakingChanges → other.kind ≠ .breakingChanges

theorem Draft.Sound.breaksOnce (h : draft.Sound) : BreaksOnce draft.sections := by
  have hlength := congrArg List.length h.breaking
  rw [List.length_map] at hlength
  have hone : (draft.sections.filter (·.kind = .breakingChanges)).length ≤ 1 :=
    hlength ▸ Option.length_toList_le
  have hpairwise :
      (draft.sections.filter (·.kind = .breakingChanges)).Pairwise fun _ _ => False := by
    generalize draft.sections.filter (·.kind = .breakingChanges) = found at hone
    match found, hone with
    | [], _ => exact .nil
    | [rule], _ => exact List.pairwise_singleton _ rule
  exact (List.pairwise_filter.1 hpairwise).imp fun hfalse hrule hother =>
    hfalse (decide_eq_true hrule) (decide_eq_true hother)

/-- An outline has the sections that it is drawn up for. It knows for each type the section that
lists it, and at most one section is for breaking changes. -/
theorem ofSections_spec (h : ofSections sections = .ok outline) :
    outline.sections = sections ∧
      (∀ type index, outline.owners.get? type = some index ↔ Owns sections index type) ∧
      BreaksOnce sections := by
  obtain ⟨draft, hdraft, h⟩ := bind_eq_ok.1 h
  cases h
  obtain ⟨hsections, hsound⟩ := Draft.adds_spec Draft.sound_empty hdraft
  obtain rfl : draft.sections = sections := hsections
  exact ⟨rfl, hsound.owners, hsound.breaksOnce⟩

/-- A type belongs to one section, which can be told from all others by listing the type. -/
theorem exists_split_of_lists (h : ofSections sections = .ok outline) (hrule : rule ∈ sections)
    (hlists : rule.Lists type) :
    ∃ before after, sections = before ++ rule :: after ∧
      ∀ other ∈ before ++ after, ¬ other.Lists type := by
  obtain ⟨-, howners, -⟩ := ofSections_spec h
  obtain ⟨before, after, rfl⟩ := List.append_of_mem hrule
  have hown : outline.owners.get? type = some before.length :=
    (howners type _).2 ⟨rule, by simp, hlists⟩
  have hsame : ∀ index, Owns (before ++ rule :: after) index type → index = before.length := by
    intro index hindex
    have hget := (howners type index).2 hindex
    rw [hown] at hget
    exact (Option.some.inj hget).symm
  refine ⟨before, after, rfl, fun other hother hothers => ?_⟩
  rcases List.mem_append.1 hother with hbefore | hafter
  · obtain ⟨index, hindex, hget⟩ := List.mem_iff_getElem.1 hbefore
    have heq :=
      hsame index ⟨other, by
        rw [List.getElem?_append_left hindex, List.getElem?_eq_getElem hindex, hget], hothers⟩
    omega
  · obtain ⟨index, hindex, hget⟩ := List.mem_iff_getElem.1 hafter
    have heq := hsame (before.length + (index + 1))
      ⟨other, by simp [hindex, hget], hothers⟩
    omega

/-! ## Sections that pass the check -/

/-- The check knows the owners of types by their titles, the outline by their numbers. -/
structure Titled (sections : List SectionRule) (owners : Dictionary Nat)
    (titles : List (String × String)) : Prop where
  lookup : ∀ type, titles.lookup type = (owners.get? type).map (titleAt sections)
  lt_length : ∀ type index, owners.get? type = some index → index < sections.length

theorem titleAt_append {index : Nat} (h : index < sections.length) (rule : SectionRule) :
    titleAt (sections ++ [rule]) index = titleAt sections index := by
  rw [titleAt, titleAt, List.getElem?_append_left h]

theorem titleAt_length (sections : List SectionRule) (rule : SectionRule) :
    titleAt (sections ++ [rule]) sections.length = rule.name := by
  simp [titleAt]

variable {owners : Dictionary Nat} {titles : List (String × String)}

/-- One more section changes no title. -/
theorem Titled.append (h : Titled sections owners titles) (rule : SectionRule) :
    Titled (sections ++ [rule]) owners titles where
  lookup type := by
    rw [h.lookup]
    cases howner : owners.get? type with
    | none => rfl
    | some index => exact congrArg some (titleAt_append (h.lt_length type index howner) rule).symm
  lt_length type index hindex := by
    rw [List.length_append]
    exact Nat.lt_add_right _ (h.lt_length type index hindex)

/-- A type is given to the last section. -/
theorem Titled.insert (h : Titled (sections ++ [rule]) owners titles) (type : String) :
    Titled (sections ++ [rule]) (owners.insert type sections.length)
      ((type, rule.name) :: titles) where
  lookup other := by
    rw [lookup_cons, Dictionary.get?_insert, h.lookup]
    split
    · rw [Option.map_some, titleAt_length]
    · rfl
  lt_length other index hindex := by
    rw [Dictionary.get?_insert] at hindex
    split at hindex
    · cases hindex
      simp
    · exact h.lt_length other index hindex

/-- The check and the outline find the same fault in the types of a section. -/
theorem claimTypes_agrees (draft : Draft)
    (h : Titled (draft.sections ++ [rule]) draft.owners titles) :
    Agrees (fun titles next => next.sections = draft.sections ∧ next.breaking = draft.breaking ∧
        Titled (draft.sections ++ [rule]) next.owners titles)
      (claimTypes rule.name titles types) (types.foldlM (Draft.claim rule) draft) := by
  induction types generalizing draft titles with
  | nil => exact .ok ⟨rfl, rfl, h⟩
  | cons type types ih =>
    rw [claimTypes, List.foldlM_cons, Draft.claim, h.lookup]
    cases draft.owners.get? type with
    | some owner => exact .error _
    | none =>
      exact ih { draft with owners := draft.owners.insert type draft.sections.length }
        (h.insert type)

/-- The check and the outline find the same fault in sections that have names. -/
theorem validateSectionsFrom_agrees {rules : List SectionRule} (index : Nat) (draft : Draft)
    (h : Titled draft.sections draft.owners titles) (hnames : ∀ rule ∈ rules, rule.name ≠ "") :
    Agrees (fun _ _ => True) (validateSectionsFrom index titles draft.breaking rules)
      (rules.foldlM Draft.add draft) := by
  induction rules generalizing draft titles index with
  | nil => exact .ok trivial
  | cons rule rules ih =>
    obtain ⟨hname, hnames⟩ := List.forall_mem_cons.1 hnames
    unfold validateSectionsFrom
    rw [if_neg hname, List.foldlM_cons, Draft.add]
    dsimp only
    cases rule.kind with
    | breakingChanges =>
      cases draft.breaking with
      | some first => exact .error _
      | none =>
        exact ih (index + 1)
          { draft with sections := draft.sections ++ [rule], breaking := some rule.name }
          (h.append rule) hnames
    | commits =>
      dsimp only
      rw [bind_assoc]
      refine (claimTypes_agrees draft (h.append rule)).bind
        fun titles claimed ⟨hsections, hbreaking, htitled⟩ => ?_
      rw [← hsections] at htitled
      rw [← hbreaking]
      exact ih (index + 1) { claimed with sections := claimed.sections ++ [rule] } htitled hnames

/-- The check and the outline find the same fault in sections that have names. -/
theorem validateSections_agrees (hnames : ∀ rule ∈ sections, rule.name ≠ "") :
    Agrees (fun _ _ => True) (validateSections sections) (ofSections sections) := by
  have hempty : Titled [] ∅ [] := ⟨fun _ => rfl, nofun⟩
  have hagrees := validateSectionsFrom_agrees 0 {} hempty hnames
  unfold ofSections
  rw [← bind_pure (validateSections sections)]
  exact hagrees.bind fun _ draft _ => .ok trivial

/-- Sections that pass the check have names. -/
theorem names_of_validateSectionsFrom {rules : List SectionRule} {index : Nat}
    {breaking : Option String} (h : validateSectionsFrom index titles breaking rules = .ok ()) :
    ∀ rule ∈ rules, rule.name ≠ "" := by
  induction rules generalizing index titles breaking with
  | nil => exact nofun
  | cons rule rules ih =>
    unfold validateSectionsFrom at h
    by_cases hname : rule.name = ""
    · rw [if_pos hname] at h
      cases h
    · rw [if_neg hname] at h
      refine List.forall_mem_cons.2 ⟨hname, ?_⟩
      dsimp only at h
      cases hkind : rule.kind with
      | breakingChanges =>
        rw [hkind] at h
        cases breaking with
        | some first => cases h
        | none => exact ih h
      | commits =>
        rw [hkind] at h
        obtain ⟨titles, -, h⟩ := bind_eq_ok.1 h
        exact ih h

/-- The check accepts sections exactly if they have names and an outline. -/
theorem validateSections_eq_ok :
    validateSections sections = .ok () ↔
      (∀ rule ∈ sections, rule.name ≠ "") ∧ ∃ outline, ofSections sections = .ok outline := by
  constructor
  · intro h
    have hnames := names_of_validateSectionsFrom h
    exact ⟨hnames, (validateSections_agrees hnames).exists_ok_iff.1 ⟨(), h⟩⟩
  · rintro ⟨hnames, houtline⟩
    obtain ⟨_, h⟩ := (validateSections_agrees hnames).exists_ok_iff.2 houtline
    exact h

end Outline

end ConventionalRelease
