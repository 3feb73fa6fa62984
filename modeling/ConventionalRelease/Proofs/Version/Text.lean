import ConventionalRelease.Proofs.Attempt
import ConventionalRelease.Proofs.Text.Fronts
import ConventionalRelease.Proofs.Text.Pieces
import ConventionalRelease.Version.Reader

/-!
# The text of a version

A number has one numeral, its digits without zeros in front, and a reader of numbers accepts no
other (`readNumber_eq_ok`). The same holds of identifiers (`readIdentifiers_eq_ok`), and so of
versions: `Version.read` reads a text as a version exactly when it is the text of that version
(`Version.read_eq_ok`). The name of a tag is read as a version either in this form or as one or two
plain numbers (`Version.parse_eq_ok`).
-/

namespace ConventionalRelease

/-! ## Numerals -/

/-- A digit is the character of its value. -/
theorem digitChar_digitValue {c : Char} (h : c.isDigit) : (digitValue c).digitChar = c := by
  have hc : 48 ≤ c.toNat ∧ c.toNat ≤ 57 := by
    simpa [Char.isDigit, UInt32.le_iff_toNat_le] using h
  apply Char.toNat_inj.1
  have hv : digitValue c = c.toNat - 48 := rfl
  rw [Nat.toNat_digitChar_of_lt_ten (by omega)]
  omega

/-- The value of a digit is below ten. -/
theorem digitValue_lt {c : Char} (h : c.isDigit) : digitValue c < 10 := by
  have hc : 48 ≤ c.toNat ∧ c.toNat ≤ 57 := by
    simpa [Char.isDigit, UInt32.le_iff_toNat_le] using h
  have hv : digitValue c = c.toNat - 48 := rfl
  omega

/-- One more digit makes the numeral of ten times the number and the value of the digit. -/
theorem toDigits_append_digit {n : Nat} {c : Char} (hn : 0 < n) (h : c.isDigit) :
    Nat.toDigits 10 n ++ [c] = Nat.toDigits 10 (10 * n + digitValue c) := by
  rw [← Nat.toDigits_append_toDigits (by omega) hn (digitValue_lt h),
    Nat.toDigits_of_lt_base (digitValue_lt h), digitChar_digitValue h]

/-- The digits of a numeral are digits. -/
theorem isDigit_of_mem_decimal {n : UInt64} {c : Char} (h : c ∈ decimal n) : c.isDigit :=
  Nat.isDigit_of_mem_toDigits (by omega) (by omega) h

/-- Further digits never make a value smaller. -/
theorem le_ofDigitChars (ds : List Char) (v : Nat) : v ≤ Nat.ofDigitChars 10 ds v := by
  induction ds generalizing v with
  | nil => simp
  | cons c ds ih =>
    rw [Nat.ofDigitChars_cons]
    exact Nat.le_trans (by omega) (ih _)

/-- Reading on after a positive value takes the digits that follow, up to what is none. -/
theorem readNumberFrom_append {part : VersionPart} {ds rest : List Char} {v : Nat} (hv : 0 < v)
    (hds : ∀ c ∈ ds, c.isDigit) (hrest : Text.stops Char.isDigit rest = true)
    (hb : Nat.ofDigitChars 10 ds v < numberBound) :
    readNumberFrom part v true (ds ++ rest) = .ok (Nat.ofDigitChars 10 ds v, rest) := by
  induction ds generalizing v with
  | nil =>
    cases rest with
    | nil => rfl
    | cons c rest =>
      have hc : c.isDigit = false := by simpa using hrest
      simp [readNumberFrom, hc]
  | cons c ds ih =>
    rw [Nat.ofDigitChars_cons] at hb ⊢
    have hc : c.isDigit := hds c List.mem_cons_self
    have hnext : 10 * v + digitValue c < numberBound := Nat.lt_of_le_of_lt (le_ofDigitChars ds _) hb
    have hv0 : (v == 0) = false := by simp; omega
    simp only [List.cons_append, readNumberFrom, hc, hv0, hnext, if_true, Bool.and_false,
      Bool.false_eq_true, if_false]
    exact ih (by omega) (fun d hd => hds d (List.mem_cons_of_mem _ hd)) hb

/-- What is read on after a positive value completes the numeral of that value. -/
theorem toDigits_of_readNumberFrom {part : VersionPart} {s rest : List Char} {v n : Nat}
    (hv : 0 < v) (hb : v < numberBound) (h : readNumberFrom part v true s = .ok (n, rest)) :
    n < numberBound ∧ Text.stops Char.isDigit rest = true ∧
      Nat.toDigits 10 v ++ s = Nat.toDigits 10 n ++ rest := by
  induction s generalizing v with
  | nil =>
    simp only [readNumberFrom, if_true, Except.ok.injEq, Prod.mk.injEq] at h
    obtain ⟨rfl, rfl⟩ := h
    exact ⟨hb, rfl, rfl⟩
  | cons c s ih =>
    rw [readNumberFrom] at h
    have hv0 : (v == 0) = false := by simp; omega
    split at h
    · next hc =>
      simp only [hv0, Bool.and_false, Bool.false_eq_true, if_false] at h
      split at h
      · next hnext =>
        obtain ⟨hn, hrest, heq⟩ := ih (by omega) hnext h
        refine ⟨hn, hrest, ?_⟩
        rw [← heq, ← toDigits_append_digit hv hc, List.append_assoc]
        rfl
      · cases h
    · next hc =>
      simp only [if_true, Except.ok.injEq, Prod.mk.injEq] at h
      obtain ⟨rfl, rfl⟩ := h
      exact ⟨hb, by simpa using hc, rfl⟩

/-- The value of the character of a digit. -/
theorem digitValue_digitChar {n : Nat} (h : n < 10) : digitValue n.digitChar = n := by
  have hc := Nat.toNat_digitChar_of_lt_ten h
  show n.digitChar.toNat - 48 = n
  omega

/-- The numeral of a number with two digits or more does not start with a zero. -/
theorem digitValue_head_pos {n : Nat} {c : Char} {ds : List Char} (hn : 0 < n)
    (h : Nat.toDigits 10 n = c :: ds) : 0 < digitValue c := by
  induction n using Nat.strongRecOn generalizing ds with
  | ind n ih =>
    rw [Nat.toDigits_eq_if (by omega)] at h
    split at h
    · next hlt =>
      injection h with hc _
      rw [← hc, digitValue_digitChar hlt]
      exact hn
    · cases hq : Nat.toDigits 10 (n / 10) with
      | nil => exact absurd hq Nat.toDigits_ne_nil
      | cons d es =>
        rw [hq] at h
        injection h with hc _
        exact ih (n / 10) (by omega) (by omega) (hc ▸ hq)

/-- A numeral is one digit, or it starts with a digit that is not zero. -/
theorem decimal_eq_cons (n : UInt64) : ∃ c ds, decimal n = c :: ds ∧ c.isDigit ∧
    (∀ d ∈ ds, d.isDigit) ∧ Nat.ofDigitChars 10 ds (digitValue c) = n.toNat ∧
    (ds = [] ∨ 0 < digitValue c) := by
  cases h : decimal n with
  | nil => exact absurd h Nat.toDigits_ne_nil
  | cons c ds =>
    have hds : ∀ d ∈ c :: ds, d.isDigit := fun d hd => isDigit_of_mem_decimal (h ▸ hd)
    have hv : Nat.ofDigitChars 10 ds (digitValue c) = n.toNat := by
      have hn : Nat.ofDigitChars 10 (decimal n) 0 = n.toNat := Nat.ofDigitChars_ten_toDigits
      rw [h, Nat.ofDigitChars_cons] at hn
      simpa [digitValue] using hn
    refine ⟨c, ds, rfl, hds c List.mem_cons_self, fun d hd => hds d (List.mem_cons_of_mem _ hd),
      hv, ?_⟩
    rcases Nat.eq_zero_or_pos n.toNat with h0 | hpos
    · have hz : c :: ds = ['0'] := by rw [← h, decimal, h0]; rfl
      exact .inl (List.cons.inj hz).2
    · exact .inr (digitValue_head_pos hpos h)

/-- After a zero in front no digit may follow. -/
theorem readNumberFrom_zero {part : VersionPart} {s rest : List Char} {n : Nat} :
    readNumberFrom part 0 true s = .ok (n, rest) ↔ Text.stops Char.isDigit rest = true ∧ n = 0 ∧
      s = rest := by
  cases s with
  | nil =>
    simp only [readNumberFrom, if_true, Except.ok.injEq, Prod.mk.injEq]
    exact ⟨fun ⟨h, h'⟩ => ⟨h' ▸ rfl, h.symm, h'⟩, fun ⟨_, h, h'⟩ => ⟨h.symm, h'⟩⟩
  | cons c s =>
    rw [readNumberFrom]
    cases hc : c.isDigit with
    | true =>
      simp only [if_true, Bool.true_and, beq_self_eq_true, reduceCtorEq, false_iff]
      rintro ⟨h, -, rfl⟩
      simp [hc] at h
    | false =>
      simp only [Bool.false_eq_true, if_false, if_true, Except.ok.injEq, Prod.mk.injEq]
      constructor
      · rintro ⟨rfl, rfl⟩
        exact ⟨by simpa using hc, rfl, rfl⟩
      · rintro ⟨-, rfl, rfl⟩
        exact ⟨rfl, rfl⟩

/-- A number is read exactly from its numeral, up to what is no digit. -/
theorem readNumber_eq_ok {part : VersionPart} {s rest : List Char} {n : UInt64} :
    readNumber part s = .ok (n, rest) ↔ Text.stops Char.isDigit rest = true ∧
      s = decimal n ++ rest := by
  constructor
  · intro h
    obtain ⟨⟨v, rest'⟩, hread, hret⟩ := bind_eq_ok.1 h
    cases hret
    cases s with
    | nil => cases hread
    | cons c s =>
      rw [readNumberFrom] at hread
      split at hread
      · next hc =>
        simp only [Bool.false_and, Bool.false_eq_true, if_false, Nat.mul_zero,
          Nat.zero_add] at hread
        split at hread
        · next hb =>
          rcases Nat.eq_zero_or_pos (digitValue c) with h0 | hpos
          · rw [h0] at hread
            obtain ⟨hrest, rfl, rfl⟩ := readNumberFrom_zero.1 hread
            have hc0 : c = '0' := by rw [← digitChar_digitValue hc, h0]; rfl
            exact ⟨hrest, by rw [hc0]; rfl⟩
          · obtain ⟨hv, hrest, heq⟩ := toDigits_of_readNumberFrom hpos hb hread
            refine ⟨hrest, ?_⟩
            rw [Nat.toDigits_of_lt_base (digitValue_lt hc), digitChar_digitValue hc] at heq
            rw [decimal, UInt64.toNat_ofNat_of_lt' hv]
            exact heq
        · cases hread
      · cases hread
  · rintro ⟨hrest, rfl⟩
    obtain ⟨c, ds, hn, hc, hds, hv, hlead⟩ := decimal_eq_cons n
    have hb : n.toNat < numberBound := n.toNat_lt
    have hcb : digitValue c < numberBound :=
      Nat.lt_of_le_of_lt (hv ▸ le_ofDigitChars ds _) hb
    have hread : readNumberFrom part 0 false (decimal n ++ rest) = .ok (n.toNat, rest) := by
      rw [hn, List.cons_append, readNumberFrom]
      simp only [hc, if_true, Bool.false_and, Bool.false_eq_true, if_false, Nat.mul_zero,
        Nat.zero_add, hcb]
      rcases Nat.eq_zero_or_pos (digitValue c) with h0 | hpos
      · rcases hlead with rfl | hpos
        · rw [h0]
          exact readNumberFrom_zero.2 ⟨hrest, by rw [← hv, h0]; rfl, rfl⟩
        · omega
      · rw [← hv]
        exact readNumberFrom_append hpos hds hrest (hv ▸ hb)
    rw [readNumber, hread]
    simp [bind, Except.bind, pure, Except.pure]

/-- A dot is read exactly where one stands. -/
theorem readDot_eq_ok {part : VersionPart} {s rest : List Char} :
    readDot part s = .ok rest ↔ s = '.' :: rest := by
  constructor
  · intro h
    unfold readDot at h
    split at h
    · cases h; rfl
    · cases h
    · cases h
  · rintro rfl
    rfl

/-! ## Identifiers -/

/-- Identifiers are checked by taking each one as it stands; none may be empty. -/
theorem checkIdentifiers_eq_ok {part : VersionPart} {isIdentifier : List Char → Bool}
    {pieces : List (List Char)} {ids : Identifiers isIdentifier} :
    checkIdentifiers part isIdentifier pieces = .ok ids ↔
      ids.parts = pieces ∧ ∀ p ∈ pieces, p ≠ [] := by
  induction pieces generalizing ids with
  | nil =>
    obtain ⟨parts, valid⟩ := ids
    simp only [checkIdentifiers, Except.ok.injEq, List.not_mem_nil, false_implies, implies_true,
      and_true]
    constructor
    · intro h
      exact (congrArg Identifiers.parts h).symm
    · rintro rfl
      rfl
  | cons p pieces ih =>
    rw [checkIdentifiers]
    split
    · next hp => simp [hp]
    · next hp =>
      split
      · next hid =>
        rw [bind_eq_ok]
        constructor
        · rintro ⟨rest, hrest, hret⟩
          obtain ⟨hparts, hne⟩ := ih.1 hrest
          cases hret
          exact ⟨congrArg (p :: ·) hparts, List.forall_mem_cons.2 ⟨hp, hne⟩⟩
        · rintro ⟨hparts, hne⟩
          obtain ⟨parts, valid⟩ := ids
          subst hparts
          refine ⟨⟨pieces, fun q hq => valid q (List.mem_cons_of_mem _ hq)⟩, ?_, rfl⟩
          exact ih.2 ⟨rfl, (List.forall_mem_cons.1 hne).2⟩
      · next hid =>
        constructor
        · intro h
          cases h
        · rintro ⟨hparts, -⟩
          exact absurd (ids.valid p (hparts ▸ List.mem_cons_self)) hid

/-- A character of the text of identifiers: one of an identifier, or a dot. -/
def isIdentifiersChar (c : Char) : Bool :=
  isIdentifierChar c || c == '.'

/-- An identifier of a build has a character, and only such as identifiers have. -/
theorem isBuildIdentifier_iff {s : List Char} :
    isBuildIdentifier s = true ↔ s ≠ [] ∧ ∀ c ∈ s, isIdentifierChar c = true := by
  simp [isBuildIdentifier]

/-- An identifier of a pre-release is one of a build. -/
theorem isBuildIdentifier_of_pre {s : List Char} (h : isPreIdentifier s = true) :
    isBuildIdentifier s = true :=
  (Bool.and_eq_true_iff.1 h).1

section
variable {part : VersionPart} {isIdentifier : List Char → Bool}

/-- Identifiers are read exactly from their text, up to what they could not go on with; there has to
be one. -/
theorem readIdentifiers_eq_ok (hid : ∀ s, isIdentifier s = true → isBuildIdentifier s = true)
    {s rest : List Char} {ids : Identifiers isIdentifier} :
    readIdentifiers part isIdentifier s = .ok (ids, rest) ↔
      ids.isEmpty = false ∧ Text.stops isIdentifiersChar rest = true ∧ s = ids.text ++ rest := by
  have hne : ∀ p ∈ ids.parts, p ≠ [] :=
    fun p hp => (isBuildIdentifier_iff.1 (hid p (ids.valid p hp))).1
  have hchars : ∀ c ∈ ids.text, isIdentifiersChar c = true := by
    refine Text.all_join (by simp [isIdentifiersChar]) fun p hp c hc => ?_
    simp [isIdentifiersChar, (isBuildIdentifier_iff.1 (hid p (ids.valid p hp))).2 c hc]
  have hdot : ∀ p ∈ ids.parts, '.' ∉ p := fun p hp hmem => by
    have := (isBuildIdentifier_iff.1 (hid p (ids.valid p hp))).2 '.' hmem
    simp [isIdentifierChar] at this
  have hread : readIdentifiers part isIdentifier s = .ok (ids, rest) ↔
      ids.parts = Text.splitAt '.' (s.takeWhile isIdentifiersChar) ∧
        s.dropWhile isIdentifiersChar = rest := by
    rw [readIdentifiers, bind_eq_ok, ← Text.drop_length_takeWhile]
    constructor
    · rintro ⟨ids', hcheck, hret⟩
      cases hret
      exact ⟨(checkIdentifiers_eq_ok.1 hcheck).1, rfl⟩
    · rintro ⟨hparts, rfl⟩
      exact ⟨ids, checkIdentifiers_eq_ok.2 ⟨hparts, hparts ▸ hne⟩, rfl⟩
  rw [hread]
  constructor
  · rintro ⟨hparts, rfl⟩
    have htext : ids.text = s.takeWhile isIdentifiersChar := by
      rw [Identifiers.text, hparts, Text.join_splitAt]
    refine ⟨?_, Text.stops_dropWhile s, ?_⟩
    · simpa [Identifiers.isEmpty, hparts] using Text.splitAt_ne_nil '.' _
    · rw [htext, List.takeWhile_append_dropWhile]
  · rintro ⟨hempty, hrest, rfl⟩
    have hparts : ids.parts ≠ [] := by simpa [Identifiers.isEmpty] using hempty
    rw [Text.takeWhile_append_of_stops hchars hrest, Text.dropWhile_append_of_stops hchars hrest]
    exact ⟨(Text.splitAt_join hparts hdot).symm, rfl⟩

end

/-- There is one empty list of identifiers. -/
theorem Identifiers.eq_empty {isIdentifier : List Char → Bool} {ids : Identifiers isIdentifier}
    (h : ids.isEmpty = true) : ids = ∅ := by
  obtain ⟨parts, valid⟩ := ids
  cases List.isEmpty_iff.1 h
  rfl

/-- The text of identifiers with the mark in front that announces them; nothing when there are
none. -/
def Identifiers.marked {isIdentifier : List Char → Bool} (mark : Char)
    (ids : Identifiers isIdentifier) : List Char :=
  if ids.isEmpty then [] else mark :: ids.text

/-- Reads the identifiers that a mark announces, if it is there. -/
def readMarked (mark : Char) (part : VersionPart) (isIdentifier : List Char → Bool) :
    List Char → Except VersionFault (Identifiers isIdentifier × List Char)
  | [] => .ok (∅, [])
  | c :: rest => if c = mark then readIdentifiers part isIdentifier rest else .ok (∅, c :: rest)

/-- Announced identifiers are read exactly from their text, up to what they could not go on with. -/
theorem readMarked_eq_ok {mark : Char} {part : VersionPart} {isIdentifier : List Char → Bool}
    (hid : ∀ s, isIdentifier s = true → isBuildIdentifier s = true) {s rest : List Char}
    {ids : Identifiers isIdentifier} :
    readMarked mark part isIdentifier s = .ok (ids, rest) ↔ s = ids.marked mark ++ rest ∧
      if ids.isEmpty then rest.head? ≠ some mark else Text.stops isIdentifiersChar rest = true := by
  have hnone {t : List Char} (ht : t.head? ≠ some mark) :
      (.ok (∅, t) : Except VersionFault (Identifiers isIdentifier × List Char)) = .ok (ids, rest) ↔
        t = ids.marked mark ++ rest ∧ if ids.isEmpty then rest.head? ≠ some mark
          else Text.stops isIdentifiersChar rest = true := by
    constructor
    · intro h
      cases h
      exact ⟨rfl, (if_pos rfl).mpr ht⟩
    · rintro ⟨rfl, -⟩
      cases hids : ids.isEmpty with
      | true =>
        rw [Identifiers.eq_empty hids]
        rfl
      | false => simp [Identifiers.marked, hids] at ht
  cases s with
  | nil => exact hnone (by simp)
  | cons c s =>
    rw [readMarked]
    split
    · next hc =>
      subst hc
      rw [readIdentifiers_eq_ok hid, Identifiers.marked]
      cases ids.isEmpty with
      | true =>
        simp only [if_true, Bool.true_eq_false, false_and, List.nil_append, false_iff, not_and]
        rintro rfl
        simp
      | false =>
        simp only [Bool.false_eq_true, if_false, true_and, List.cons_append, List.cons.injEq]
        exact and_comm
    · next hc => exact hnone (by simpa using hc)

namespace Version

/-! ## Versions -/

/-- A pre-release is announced by a hyphen. -/
theorem readPre_eq_readMarked (s : List Char) :
    readPre s = readMarked '-' .pre isPreIdentifier s := by
  unfold readPre readMarked
  split
  · rfl
  · next h =>
    split
    · rfl
    · rw [if_neg]
      rintro rfl
      exact h _ rfl

/-- A build is announced by a plus. -/
theorem readBuild_eq_readMarked (s : List Char) :
    readBuild s = readMarked '+' .build isBuildIdentifier s := by
  unfold readBuild readMarked
  split
  · rfl
  · next h =>
    split
    · rfl
    · rw [if_neg]
      rintro rfl
      exact h _ rfl

/-- The characters of a version are those of its numbers, its pre-release and its build. -/
theorem characters_eq (v : Version) :
    v.characters = decimal v.major ++ '.' :: (decimal v.minor ++ '.' ::
      (decimal v.patch ++ (v.pre.marked '-' ++ v.build.marked '+'))) := by
  simp [characters, coreText, Identifiers.marked]

/-- Whether a version is neither a pre-release nor marked with a build. -/
def isPlain (v : Version) : Bool :=
  v.pre.isEmpty && v.build.isEmpty

/-- The text of a plain version is that of its numbers. -/
theorem characters_of_isPlain {v : Version} (h : v.isPlain = true) : v.characters = v.coreText := by
  obtain ⟨hpre, hbuild⟩ := Bool.and_eq_true_iff.1 h
  rw [characters, if_pos hpre, if_pos hbuild, List.append_nil, List.append_nil]

/-- A version is written in letters, digits, dots, hyphens and pluses. -/
theorem mem_characters {v : Version} {c : Char} (h : c ∈ v.characters) :
    c.isAlphanum ∨ c = '.' ∨ c = '-' ∨ c = '+' := by
  have hnumber {n : UInt64} (hc : c ∈ decimal n) : c.isAlphanum := by
    simp [Char.isAlphanum, isDigit_of_mem_decimal hc]
  have htext {isIdentifier : List Char → Bool} {ids : Identifiers isIdentifier}
      (hid : ∀ s, isIdentifier s = true → isBuildIdentifier s = true) (hc : c ∈ ids.text) :
      c.isAlphanum ∨ c = '.' ∨ c = '-' ∨ c = '+' := by
    have hchar : isIdentifiersChar c = true := by
      refine Text.all_join (by simp [isIdentifiersChar]) (fun p hp d hd => ?_) c hc
      simp [isIdentifiersChar, (isBuildIdentifier_iff.1 (hid p (ids.valid p hp))).2 d hd]
    simp only [isIdentifiersChar, isIdentifierChar, Bool.or_eq_true, beq_iff_eq] at hchar
    grind
  rw [characters_eq] at h
  simp only [Identifiers.marked, List.mem_append, List.mem_cons] at h
  rcases h with h | h | h | h | h | h | h
  · exact .inl (hnumber h)
  · exact .inr (.inl h)
  · exact .inl (hnumber h)
  · exact .inr (.inl h)
  · exact .inl (hnumber h)
  · split at h
    · cases h
    · rcases List.mem_cons.1 h with h | h
      · exact .inr (.inr (.inl h))
      · exact htext (fun _ => isBuildIdentifier_of_pre) h
  · split at h
    · cases h
    · rcases List.mem_cons.1 h with h | h
      · exact .inr (.inr (.inr h))
      · exact htext (fun _ => id) h

/-- What is read as a version is the text of that version. -/
theorem characters_of_read {s : List Char} {v : Version} (h : read s = .ok v) :
    s = v.characters := by
  unfold read at h
  split at h
  · cases h
  · obtain ⟨⟨major, s₁⟩, h₁, h⟩ := bind_eq_ok.1 h
    obtain ⟨s₂, h₂, h⟩ := bind_eq_ok.1 h
    obtain ⟨⟨minor, s₃⟩, h₃, h⟩ := bind_eq_ok.1 h
    obtain ⟨s₄, h₄, h⟩ := bind_eq_ok.1 h
    obtain ⟨⟨patch, s₅⟩, h₅, h⟩ := bind_eq_ok.1 h
    obtain ⟨⟨pre, s₆⟩, h₆, h⟩ := bind_eq_ok.1 h
    obtain ⟨⟨build, s₇⟩, h₇, h⟩ := bind_eq_ok.1 h
    rw [readPre_eq_readMarked, readMarked_eq_ok fun _ => isBuildIdentifier_of_pre] at h₆
    rw [readBuild_eq_readMarked, readMarked_eq_ok fun _ => id] at h₇
    cases s₇ with
    | nil =>
      cases h
      rw [characters_eq, (readNumber_eq_ok.1 h₁).2, readDot_eq_ok.1 h₂, (readNumber_eq_ok.1 h₃).2,
        readDot_eq_ok.1 h₄, (readNumber_eq_ok.1 h₅).2, h₆.1, h₇.1, List.append_nil]
    | cons c s₇ => cases h

/-- The text of a version is read as that version. -/
theorem read_characters (v : Version) : read v.characters = .ok v := by
  have hne : v.characters.isEmpty = false := by
    rw [characters_eq]
    simp [decimal]
  have hdot (s : List Char) : Text.stops Char.isDigit ('.' :: s) = true := rfl
  have hpatch : Text.stops Char.isDigit (v.pre.marked '-' ++ v.build.marked '+') = true := by
    unfold Identifiers.marked
    split <;> split <;> rfl
  have hpre :
      readPre (v.pre.marked '-' ++ v.build.marked '+') = .ok (v.pre, v.build.marked '+') := by
    rw [readPre_eq_readMarked, readMarked_eq_ok fun _ => isBuildIdentifier_of_pre]
    refine ⟨rfl, ?_⟩
    unfold Identifiers.marked
    split <;> split <;> simp [isIdentifiersChar, isIdentifierChar]
  have hbuild : readBuild (v.build.marked '+') = .ok (v.build, []) := by
    rw [readBuild_eq_readMarked, readMarked_eq_ok fun _ => id, List.append_nil]
    exact ⟨rfl, by split <;> simp⟩
  unfold read
  rw [hne, characters_eq]
  refine bind_eq_ok.2 ⟨_, readNumber_eq_ok.2 ⟨hdot _, rfl⟩, ?_⟩
  refine bind_eq_ok.2 ⟨_, readDot_eq_ok.2 rfl, ?_⟩
  refine bind_eq_ok.2 ⟨_, readNumber_eq_ok.2 ⟨hdot _, rfl⟩, ?_⟩
  refine bind_eq_ok.2 ⟨_, readDot_eq_ok.2 rfl, ?_⟩
  refine bind_eq_ok.2 ⟨_, readNumber_eq_ok.2 ⟨hpatch, rfl⟩, ?_⟩
  refine bind_eq_ok.2 ⟨_, hpre, ?_⟩
  exact bind_eq_ok.2 ⟨_, hbuild, rfl⟩

/-- A text is read as a version exactly when it is the text of that version. -/
theorem read_eq_ok {s : List Char} {v : Version} : read s = .ok v ↔ s = v.characters :=
  ⟨characters_of_read, fun h => h ▸ read_characters v⟩

/-! ## Names of tags -/

/-- One or two plain numbers have no third one. -/
theorem patch_of_padded {s : List Char} {v : Version} (h : padded? s = some v) : v.patch = 0 := by
  unfold padded? at h
  split at h
  · simp only [Option.bind_eq_bind, Option.bind_eq_some_iff, Option.pure_def,
      Option.some.injEq] at h
    obtain ⟨major, -, rfl⟩ := h
    rfl
  · simp only [Option.bind_eq_bind, Option.bind_eq_some_iff, Option.pure_def,
      Option.some.injEq] at h
    obtain ⟨major, -, minor, -, rfl⟩ := h
    rfl
  · cases h

/-- A version has a text. -/
theorem characters_ne_nil (v : Version) : v.characters ≠ [] := by
  rw [characters_eq]
  simp [decimal]

/-- A name is read as a version when what follows its mark is nothing, the text of the version, or
else one or two plain numbers. -/
theorem parse_eq_ok {name : String} {v : Version} :
    parse name = .ok v ↔ (dropMark name.toList = [] ∧ v = zero) ∨
      dropMark name.toList = v.characters ∨
      (dropMark name.toList ≠ [] ∧ (∀ w : Version, dropMark name.toList ≠ w.characters) ∧
        padded? (dropMark name.toList) = some v) := by
  unfold parse
  cases hs : dropMark name.toList with
  | nil =>
    constructor
    · intro h
      cases h
      exact .inl ⟨rfl, rfl⟩
    · rintro (⟨-, rfl⟩ | h | ⟨h, -⟩)
      · rfl
      · exact absurd h.symm (characters_ne_nil v)
      · exact absurd rfl h
  | cons c s =>
    simp only [List.isEmpty_cons, Bool.false_eq_true, if_false, reduceCtorEq, false_and, false_or,
      ne_eq, not_false_eq_true, true_and]
    cases hread : read (c :: s) with
    | ok w =>
      have hw := read_eq_ok.1 hread
      constructor
      · intro h
        cases h
        exact .inl hw
      · rintro (h | ⟨h, -⟩)
        · rw [h, read_characters] at hread
          cases hread
          rfl
        · exact absurd hw (h w)
    | error fault =>
      have hnone : ∀ w : Version, c :: s ≠ w.characters := fun w hw => by
        rw [hw, read_characters] at hread
        cases hread
      constructor
      · intro h
        refine .inr ⟨hnone, ?_⟩
        cases hp : padded? (c :: s) with
        | none => simp [hp] at h
        | some w => simpa [hp] using h
      · rintro (h | ⟨-, h⟩)
        · exact absurd h (hnone v)
        · simp [h]

/-- The text of a version has no mark in front. -/
theorem dropMark_characters (v : Version) : dropMark v.characters = v.characters := by
  obtain ⟨c, ds, hn, hc, -⟩ := decimal_eq_cons v.major
  rw [characters_eq, hn]
  unfold dropMark
  split
  · next h =>
    cases h
    cases hc
  · rfl

/-- A text without one mark is the whole text, or what follows the mark. -/
theorem eq_of_dropMark {s t : List Char} (h : dropMark s = t) : s = t ∨ s = 'v' :: t := by
  unfold dropMark at h
  split at h
  · exact .inr (h ▸ rfl)
  · exact .inl h

/-- The text of a version names it, with or without a mark. -/
theorem parse_of_dropMark {name : String} {v : Version} (h : dropMark name.toList = v.characters) :
    parse name = .ok v :=
  parse_eq_ok.2 (.inr (.inl h))

/-- The text of a plain version names it. -/
theorem parse_coreText {v : Version} (h : v.isPlain = true) :
    parse (String.ofList v.coreText) = .ok v := by
  refine parse_of_dropMark ?_
  rw [String.toList_ofList, ← characters_of_isPlain h, dropMark_characters]

/-- A name of a version whose third number is not zero is the text of that version, with or without
a mark. -/
theorem dropMark_of_parse {name : String} {v : Version} (hpatch : v.patch ≠ 0)
    (h : parse name = .ok v) : dropMark name.toList = v.characters := by
  rcases parse_eq_ok.1 h with ⟨-, rfl⟩ | h | ⟨-, -, h⟩
  · exact absurd rfl hpatch
  · exact h
  · exact absurd (patch_of_padded h) hpatch

end Version

end ConventionalRelease
