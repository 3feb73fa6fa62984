import ConventionalRelease.Proofs.Version.Text

/-!
# The grammar of versions

Which texts are versions is said here by rules for their parts: numbers without zeros in front,
identifiers of letters, digits and hyphens with dots between them, and what the parts are joined
with (`Version.Spells`). The text of a version is the only one that the rules derive for it
(`Version.spells_iff`). The name of a tag may also be short for a version, one or two numbers
written more freely (`Version.Abbreviates`). `Version.parse_iff_spells` says that these are the
names that are read as versions, and that no name is both.
-/

namespace ConventionalRelease

/-! ## Numbers -/

/-- One digit or more. -/
def IsDigits (s : List Char) : Prop :=
  s ≠ [] ∧ ∀ c ∈ s, c.isDigit = true

/-- A numeric identifier: zero, or digits that do not start with zero. -/
inductive IsNumeric : List Char → Prop
  | zero : IsNumeric ['0']
  | positive {c : Char} {ds : List Char} (hc : c.isDigit = true) (hzero : c ≠ '0')
    (hds : ∀ d ∈ ds, d.isDigit = true) : IsNumeric (c :: ds)

/-- A numeric identifier with the value of a number. -/
structure SpellsNumber (s : List Char) (n : UInt64) : Prop where
  numeric : IsNumeric s
  value : Nat.ofDigitChars 10 s 0 = n.toNat

theorem IsNumeric.isDigits {s : List Char} (h : IsNumeric s) : IsDigits s := by
  cases h with
  | zero => exact ⟨List.cons_ne_nil _ _, List.forall_mem_singleton.2 rfl⟩
  | positive hc _ hds => exact ⟨List.cons_ne_nil _ _, List.forall_mem_cons.2 ⟨hc, hds⟩⟩

/-- Further digits complete the numeral of a positive number. -/
theorem toDigits_append_digits {n : Nat} {ds : List Char} (hn : 0 < n)
    (hds : ∀ d ∈ ds, d.isDigit = true) :
    Nat.toDigits 10 n ++ ds = Nat.toDigits 10 (Nat.ofDigitChars 10 ds n) := by
  induction ds generalizing n with
  | nil => rw [List.append_nil, Nat.ofDigitChars_nil]
  | cons d ds ih =>
    obtain ⟨hd, hds⟩ := List.forall_mem_cons.1 hds
    calc Nat.toDigits 10 n ++ d :: ds
        = Nat.toDigits 10 (10 * n + digitValue d) ++ ds := by
          rw [← toDigits_append_digit hn hd, List.append_assoc]; rfl
      _ = Nat.toDigits 10 (Nat.ofDigitChars 10 (d :: ds) n) := by
        rw [ih (by omega) hds, Nat.ofDigitChars_cons]; rfl

/-- A numeric identifier is the numeral of its value. -/
theorem IsNumeric.toDigits_ofDigitChars {s : List Char} (h : IsNumeric s) :
    Nat.toDigits 10 (Nat.ofDigitChars 10 s 0) = s := by
  cases h with
  | zero => rfl
  | @positive c ds hc hzero hds =>
    have hpos : 0 < digitValue c := by
      refine Nat.pos_of_ne_zero fun h0 => hzero ?_
      rw [← digitChar_digitValue hc, h0]
      rfl
    have hvalue : Nat.ofDigitChars 10 (c :: ds) 0 = Nat.ofDigitChars 10 ds (digitValue c) := by
      rw [Nat.ofDigitChars_cons, Nat.mul_zero, Nat.zero_add]
      rfl
    rw [hvalue, ← toDigits_append_digits hpos hds, Nat.toDigits_of_lt_base (digitValue_lt hc),
      digitChar_digitValue hc]
    rfl

/-- The numeral of a number is a numeric identifier. -/
theorem isNumeric_decimal (n : UInt64) : IsNumeric (decimal n) := by
  obtain ⟨c, ds, hn, hc, hds, -, hlead⟩ := decimal_eq_cons n
  rw [hn]
  by_cases hzero : c = '0'
  · subst hzero
    obtain rfl : ds = [] := hlead.resolve_right (Nat.lt_irrefl 0)
    exact .zero
  · exact .positive hc hzero hds

/-- A number has one numeric identifier, its numeral. -/
theorem spellsNumber_iff {s : List Char} {n : UInt64} : SpellsNumber s n ↔ s = decimal n := by
  constructor
  · rintro ⟨hnumeric, hvalue⟩
    rw [decimal, ← hvalue, hnumeric.toDigits_ofDigitChars]
  · rintro rfl
    exact ⟨isNumeric_decimal n, Nat.ofDigitChars_ten_toDigits⟩

/-! ## Identifiers -/

/-- A character of identifiers that is no digit. -/
def IsNonDigit (c : Char) : Prop :=
  c.isAlpha = true ∨ c = '-'

/-- An alphanumeric identifier: letters, digits and hyphens, and not digits only. -/
structure IsAlphanumeric (s : List Char) : Prop where
  chars : ∀ c ∈ s, c.isDigit = true ∨ IsNonDigit c
  nonDigit : ∃ c ∈ s, IsNonDigit c

/-- An identifier of a pre-release: an alphanumeric or a numeric one. -/
def IsPrePart (s : List Char) : Prop :=
  IsAlphanumeric s ∨ IsNumeric s

/-- An identifier of a build: an alphanumeric one, or any digits. -/
def IsBuildPart (s : List Char) : Prop :=
  IsAlphanumeric s ∨ IsDigits s

theorem isIdentifierChar_iff {c : Char} :
    isIdentifierChar c = true ↔ c.isDigit = true ∨ IsNonDigit c := by
  simp only [isIdentifierChar, Char.isAlphanum, IsNonDigit, Bool.or_eq_true, beq_iff_eq]
  tauto

theorem IsNonDigit.isDigit_eq_false {c : Char} (h : IsNonDigit c) : c.isDigit = false := by
  rcases h with hletter | rfl
  · rw [← Bool.not_eq_true]
    intro hdigit
    have hbounds : 48 ≤ c.toNat ∧ c.toNat ≤ 57 := Char.isDigit_iff_toNat.1 hdigit
    rcases Bool.or_eq_true_iff.1 hletter with hupper | hlower
    · have hcode : 65 ≤ c.toNat ∧ c.toNat ≤ 90 :=
        of_decide_eq_true (p := 'A'.val ≤ c.val ∧ c.val ≤ 'Z'.val) hupper
      omega
    · have hcode : 97 ≤ c.toNat :=
        of_decide_eq_true (p := 'a'.val ≤ c.val) (Bool.and_eq_true_iff.1 hlower).1
      omega
  · rfl

theorem IsAlphanumeric.not_all_isDigit {s : List Char} (h : IsAlphanumeric s) :
    ¬ ∀ c ∈ s, c.isDigit = true := by
  obtain ⟨c, hc, hnon⟩ := h.nonDigit
  intro hall
  exact Bool.false_ne_true (hnon.isDigit_eq_false.symm.trans (hall c hc))

/-- What an identifier of a build may be is what the grammar says. -/
theorem isBuildIdentifier_iff_isBuildPart {s : List Char} :
    isBuildIdentifier s = true ↔ IsBuildPart s := by
  rw [isBuildIdentifier_iff]
  constructor
  · rintro ⟨hne, hchars⟩
    by_cases hdigits : ∀ c ∈ s, c.isDigit = true
    · exact .inr ⟨hne, hdigits⟩
    · refine .inl ⟨fun c hc => isIdentifierChar_iff.1 (hchars c hc), ?_⟩
      push Not at hdigits
      obtain ⟨c, hc, hnot⟩ := hdigits
      exact ⟨c, hc, (isIdentifierChar_iff.1 (hchars c hc)).resolve_left hnot⟩
  · rintro (⟨hchars, c, hc, -⟩ | ⟨hne, hdigits⟩)
    · exact ⟨List.ne_nil_of_mem hc, fun c hc => isIdentifierChar_iff.2 (hchars c hc)⟩
    · exact ⟨hne, fun c hc => isIdentifierChar_iff.2 (.inl (hdigits c hc))⟩

/-- Digits without a zero in front are a numeric identifier. -/
theorem isNumeric_of_not_hasLeadingZero {s : List Char} (h : IsDigits s)
    (hlead : hasLeadingZero s = false) :
    IsNumeric s := by
  obtain ⟨hne, hdigits⟩ := h
  cases s with
  | nil => exact absurd rfl hne
  | cons c ds =>
    obtain ⟨hc, hds⟩ := List.forall_mem_cons.1 hdigits
    by_cases hzero : c = '0'
    · subst hzero
      cases ds with
      | nil => exact .zero
      | cons d ds =>
        have hall : ('0' :: d :: ds).all Char.isDigit = true := List.all_eq_true.2 hdigits
        simp [hasLeadingZero, hall] at hlead
    · exact .positive hc hzero hds

theorem IsNumeric.hasLeadingZero_eq_false {s : List Char} (h : IsNumeric s) :
    hasLeadingZero s = false := by
  cases h with
  | zero => rfl
  | positive _ hzero _ => simp [hasLeadingZero, hzero]

/-- What an identifier of a pre-release may be is what the grammar says. -/
theorem isPreIdentifier_iff_isPrePart {s : List Char} : isPreIdentifier s = true ↔ IsPrePart s := by
  rw [isPreIdentifier, Bool.and_eq_true, Bool.not_eq_true', isBuildIdentifier_iff_isBuildPart]
  constructor
  · rintro ⟨halphanumeric | hdigits, hlead⟩
    · exact .inl halphanumeric
    · exact .inr (isNumeric_of_not_hasLeadingZero hdigits hlead)
  · rintro (halphanumeric | hnumeric)
    · refine ⟨.inl halphanumeric, ?_⟩
      have hall : s.all Char.isDigit = false := by
        rw [← Bool.not_eq_true, List.all_eq_true]
        exact halphanumeric.not_all_isDigit
      simp [hasLeadingZero, hall]
    · exact ⟨.inr hnumeric.isDigits, hnumeric.hasLeadingZero_eq_false⟩

/-- Identifiers with dots between them. -/
inductive Dotted (IsPart : List Char → Prop) : List Char → List (List Char) → Prop
  | one {s : List Char} (hs : IsPart s) : Dotted IsPart s [s]
  | more {s t : List Char} {parts : List (List Char)} (hs : IsPart s) (ht : Dotted IsPart t parts) :
    Dotted IsPart (s ++ '.' :: t) (s :: parts)

/-- Identifiers after the mark that announces them, or nothing. -/
inductive Announced (mark : Char) (IsPart : List Char → Prop) : List Char → List (List Char) → Prop
  | absent : Announced mark IsPart [] []
  | present {s : List Char} {parts : List (List Char)} (h : Dotted IsPart s parts) :
    Announced mark IsPart (mark :: s) parts

section
variable {IsPart : List Char → Prop} {s : List Char}

/-- Dots are put between identifiers by joining these. -/
theorem dotted_iff {parts : List (List Char)} :
    Dotted IsPart s parts ↔ parts ≠ [] ∧ (∀ p ∈ parts, IsPart p) ∧ s = Text.join ['.'] parts := by
  constructor
  · intro h
    induction h with
    | one hs => exact ⟨List.cons_ne_nil _ _, List.forall_mem_singleton.2 hs, rfl⟩
    | @more s t parts hs _ ih =>
      obtain ⟨hne, hparts, rfl⟩ := ih
      refine ⟨List.cons_ne_nil _ _, List.forall_mem_cons.2 ⟨hs, hparts⟩, ?_⟩
      obtain ⟨q, qs, rfl⟩ := List.exists_cons_of_ne_nil hne
      calc s ++ '.' :: Text.join ['.'] (q :: qs)
          = s ++ ['.'] ++ Text.join ['.'] (q :: qs) := by
            rw [List.append_assoc, List.singleton_append]
        _ = Text.join ['.'] (s :: q :: qs) := rfl
  · rintro ⟨hne, hparts, rfl⟩
    induction parts with
    | nil => exact absurd rfl hne
    | cons p parts ih =>
      obtain ⟨hp, hparts⟩ := List.forall_mem_cons.1 hparts
      cases parts with
      | nil => exact .one hp
      | cons q qs =>
        rw [Text.join, List.append_assoc]
        · exact .more hp (ih (List.cons_ne_nil _ _) hparts)
        · exact List.cons_ne_nil _ _

/-- Announced identifiers are written as the grammar says. -/
theorem announced_iff {mark : Char} {isIdentifier : List Char → Bool}
    (hpart : ∀ p, isIdentifier p = true ↔ IsPart p) {ids : Identifiers isIdentifier} :
    Announced mark IsPart s ids.parts ↔ s = ids.marked mark := by
  unfold Identifiers.marked Identifiers.isEmpty Identifiers.text
  have hparts : ∀ p ∈ ids.parts, IsPart p := fun p hp => (hpart p).1 (ids.valid p hp)
  constructor
  · intro h
    generalize ids.parts = parts at h
    cases h with
    | absent => rfl
    | present h =>
      obtain ⟨hne, -, rfl⟩ := dotted_iff.1 h
      rw [if_neg (by simpa using hne)]
  · rintro rfl
    split
    · next hempty =>
      rw [List.isEmpty_iff.1 hempty]
      exact .absent
    · next hne => exact .present (dotted_iff.2 ⟨by simpa using hne, hparts, rfl⟩)

end

namespace Version

/-! ## Versions -/

/-- The texts of a version: its three numbers, and the identifiers of its pre-release and its
build. -/
inductive Spells : List Char → Version → Prop
  | intro {major minor patch pre build : List Char} {v : Version}
    (hmajor : SpellsNumber major v.major) (hminor : SpellsNumber minor v.minor)
    (hpatch : SpellsNumber patch v.patch) (hpre : Announced '-' IsPrePart pre v.pre.parts)
    (hbuild : Announced '+' IsBuildPart build v.build.parts) :
    Spells (major ++ '.' :: (minor ++ '.' :: (patch ++ (pre ++ build)))) v

/-- The grammar derives one text for a version. -/
theorem spells_iff {s : List Char} {v : Version} : Spells s v ↔ s = v.characters := by
  rw [characters_eq]
  constructor
  · rintro ⟨hmajor, hminor, hpatch, hpre, hbuild⟩
    rw [spellsNumber_iff.1 hmajor, spellsNumber_iff.1 hminor, spellsNumber_iff.1 hpatch,
      (announced_iff fun _ => isPreIdentifier_iff_isPrePart).1 hpre,
      (announced_iff fun _ => isBuildIdentifier_iff_isBuildPart).1 hbuild]
  · rintro rfl
    exact .intro (spellsNumber_iff.2 rfl) (spellsNumber_iff.2 rfl) (spellsNumber_iff.2 rfl)
      ((announced_iff fun _ => isPreIdentifier_iff_isPrePart).2 rfl)
      ((announced_iff fun _ => isBuildIdentifier_iff_isBuildPart).2 rfl)

/-! ## Short names -/

/-- A plain number: digits with the value of the number, with a plus in front of them or without. -/
inductive IsPlainNumber : List Char → UInt64 → Prop
  | unsigned {s : List Char} {n : UInt64} (hs : IsDigits s)
    (hn : Nat.ofDigitChars 10 s 0 = n.toNat) : IsPlainNumber s n
  | signed {s : List Char} {n : UInt64} (hs : IsDigits s) (hn : Nat.ofDigitChars 10 s 0 = n.toNat) :
    IsPlainNumber ('+' :: s) n

/-- One or two plain numbers, for a version whose other numbers are zero. -/
inductive Abbreviates : List Char → Version → Prop
  | one {s : List Char} {major : UInt64} (hs : IsPlainNumber s major) :
    Abbreviates s { major, minor := 0, patch := 0 }
  | two {s t : List Char} {major minor : UInt64} (hs : IsPlainNumber s major)
      (ht : IsPlainNumber t minor) :
    Abbreviates (s ++ '.' :: t) { major, minor, patch := 0 }

/-- Digits are read as the number that has their value. -/
theorem digits_eq_some {digits : List Char} {n : UInt64} :
    (if digits.isEmpty || !digits.all Char.isDigit then none
      else if Nat.ofDigitChars 10 digits 0 < numberBound then
        some (UInt64.ofNat (Nat.ofDigitChars 10 digits 0))
      else none) = some n ↔ IsDigits digits ∧ Nat.ofDigitChars 10 digits 0 = n.toNat := by
  have hother : (digits.isEmpty || !digits.all Char.isDigit) = true ↔ ¬ IsDigits digits := by
    simp only [Bool.or_eq_true, List.isEmpty_iff, Bool.not_eq_true', ← Bool.not_eq_true,
      List.all_eq_true, IsDigits]
    tauto
  by_cases hdigits : IsDigits digits
  · rw [if_neg (mt hother.1 (not_not_intro hdigits)), and_iff_right hdigits]
    split
    · next hbound => rw [Option.some.injEq, ← UInt64.toNat_inj, UInt64.toNat_ofNat_of_lt' hbound]
    · next hbound => exact ⟨nofun, fun hn => absurd (hn ▸ n.toNat_lt) hbound⟩
  · rw [if_pos (hother.2 hdigits)]
    exact ⟨nofun, fun h => absurd h.1 hdigits⟩

/-- A plain number is read exactly from digits with a plus in front or without. -/
theorem plainNumber?_eq_some {s : List Char} {n : UInt64} :
    plainNumber? s = some n ↔ IsPlainNumber s n := by
  unfold plainNumber?
  split
  · next rest =>
    refine digits_eq_some.trans ⟨fun h => .signed h.1 h.2, fun h => ?_⟩
    cases h with
    | unsigned hs _ => exact nomatch hs.2 '+' List.mem_cons_self
    | signed hs hn => exact ⟨hs, hn⟩
  · next hplus =>
    refine digits_eq_some.trans ⟨fun h => .unsigned h.1 h.2, fun h => ?_⟩
    cases h with
    | unsigned hs hn => exact ⟨hs, hn⟩
    | signed => exact absurd rfl (hplus _)

/-- A plain number has no dot. -/
theorem IsPlainNumber.not_mem_dot {s : List Char} {n : UInt64} (h : IsPlainNumber s n) :
    '.' ∉ s := by
  have hdigits : ∀ {t : List Char}, IsDigits t → '.' ∉ t := fun ht hdot => nomatch ht.2 '.' hdot
  cases h with
  | unsigned hs _ => exact hdigits hs
  | signed hs _ => exact List.not_mem_cons_of_ne_of_not_mem (by decide) (hdigits hs)

/-- Short names are read exactly from one or two plain numbers. -/
theorem padded?_eq_some {s : List Char} {v : Version} : padded? s = some v ↔ Abbreviates s v := by
  constructor
  · intro h
    unfold padded? at h
    split at h
    · next major hsplit =>
      simp only [Option.bind_eq_bind, Option.bind_eq_some_iff, Option.pure_def,
        Option.some.injEq] at h
      obtain ⟨n, hn, rfl⟩ := h
      have hs : s = major := by rw [← Text.join_splitAt '.' s, hsplit, Text.join]
      exact hs ▸ .one (plainNumber?_eq_some.1 hn)
    · next major minor hsplit =>
      simp only [Option.bind_eq_bind, Option.bind_eq_some_iff, Option.pure_def,
        Option.some.injEq] at h
      obtain ⟨m, hm, n, hn, rfl⟩ := h
      have hs : s = major ++ '.' :: minor := by
        rw [← Text.join_splitAt '.' s, hsplit]
        simp only [Text.join, List.append_assoc, List.singleton_append]
      exact hs ▸ .two (plainNumber?_eq_some.1 hm) (plainNumber?_eq_some.1 hn)
    · cases h
  · intro h
    unfold padded?
    cases h with
    | one hs =>
      rw [Text.splitAt_of_not_mem hs.not_mem_dot]
      dsimp only
      rw [plainNumber?_eq_some.2 hs]
      rfl
    | two hs ht =>
      rw [Text.splitAt_append_cons hs.not_mem_dot, Text.splitAt_of_not_mem ht.not_mem_dot]
      dsimp only
      rw [plainNumber?_eq_some.2 hs, plainNumber?_eq_some.2 ht]
      rfl

/-- A text with all three numbers is no short name. -/
theorem not_abbreviates_of_spells {s : List Char} {v w : Version} (h : Spells s v) :
    ¬ Abbreviates s w := by
  intro hshort
  have hdots : 2 ≤ s.count '.' := by
    cases h
    simp only [List.count_append, List.count_cons_self]
    omega
  have hfew : s.count '.' ≤ 1 := by
    cases hshort with
    | one hs => rw [List.count_eq_zero.2 hs.not_mem_dot]; omega
    | two hs ht =>
      rw [List.count_append, List.count_cons_self, List.count_eq_zero.2 hs.not_mem_dot,
        List.count_eq_zero.2 ht.not_mem_dot]
  omega

/-- A short name has a number. -/
theorem Abbreviates.ne_nil {s : List Char} {v : Version} (h : Abbreviates s v) : s ≠ [] := by
  rintro rfl
  have hread := padded?_eq_some.2 h
  cases hread

/-! ## Names of tags -/

/-- The name of a tag, its mark left out, is read as version 0.0.0 if it is empty, as the version
that it spells, or as the one that it is short for. At most one of this is the case; if none is, the
error names the text without the mark. The text of a version is read as that version, with a mark
and without. -/
theorem parse_iff_spells (name : String) :
    (∀ v, parse name = .ok v ↔ (dropMark name.toList = [] ∧ v = zero) ∨
      Spells (dropMark name.toList) v ∨
      Abbreviates (dropMark name.toList) v) ∧
    [dropMark name.toList = [], ∃ v, Spells (dropMark name.toList) v,
      ∃ v, Abbreviates (dropMark name.toList) v].Pairwise (fun p q => ¬ (p ∧ q)) ∧
    (dropMark name.toList ≠ [] → (∀ v, ¬ Spells (dropMark name.toList) v) →
      (∀ v, ¬ Abbreviates (dropMark name.toList) v) →
      ∃ fault, parse name = .error (.malformed (String.ofList (dropMark name.toList)) fault)) ∧
    ∀ v : Version, parse v.text = .ok v ∧ parse ("v" ++ v.text) = .ok v := by
  refine ⟨fun v => ?_, ?_, ?_, fun v => ⟨?_, ?_⟩⟩
  · rw [parse_eq_ok, ← spells_iff, padded?_eq_some]
    refine or_congr_right (or_congr_right ⟨fun h => h.2.2, fun h => ⟨h.ne_nil, fun w hw => ?_, h⟩⟩)
    exact not_abbreviates_of_spells (spells_iff.2 hw) h
  · generalize dropMark name.toList = s
    simp only [List.pairwise_cons, List.mem_cons, List.not_mem_nil, or_false, forall_eq_or_imp,
      forall_eq, false_implies, implies_true, List.Pairwise.nil, and_true]
    refine ⟨⟨?_, ?_⟩, ?_⟩
    · rintro ⟨rfl, v, hv⟩
      exact characters_ne_nil v (spells_iff.1 hv).symm
    · rintro ⟨rfl, v, hv⟩
      exact hv.ne_nil rfl
    · rintro ⟨⟨v, hv⟩, w, hw⟩
      exact not_abbreviates_of_spells hv hw
  · intro hne hspells hshort
    unfold parse
    dsimp only
    rw [if_neg (by simpa using hne)]
    cases hread : read (dropMark name.toList) with
    | ok v => exact absurd (spells_iff.2 (read_eq_ok.1 hread)) (hspells v)
    | error fault =>
      cases hpadded : padded? (dropMark name.toList) with
      | some v => exact absurd (padded?_eq_some.1 hpadded) (hshort v)
      | none => exact ⟨fault, rfl⟩
  · refine parse_of_dropMark ?_
    rw [text, String.toList_ofList, dropMark_characters]
  · refine parse_of_dropMark ?_
    have hname : ("v" ++ v.text).toList = 'v' :: v.characters := by
      rw [String.toList_append, text, String.toList_ofList, String.toList_ofList,
        List.singleton_append]
    rw [hname]
    rfl

/-- A zero in front is allowed in short names only. -/
example : parse "v+01.2" = .ok { major := 1, minor := 2, patch := 0 } ∧
    parse "v01.2.0" = .error (.malformed "01.2.0" (.leadingZero .major)) := by
  decide +kernel

end Version

end ConventionalRelease
