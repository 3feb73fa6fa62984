import ConventionalRelease.Proofs.Yaml.Cursor
import Mathlib.Data.String.Basic
import Mathlib.Tactic.IntervalCases
import Mathlib.Tactic.FinCases

/-!
# Scalars between double quotes

Every text may be written between double quotes: a character that would not be read as it stands is
written as an escape, by a letter or by its number in hexadecimal digits. What was written for the
text is read as the text, up to the closing quote (`doubleQuotedFrom?_flatMap`).
-/

namespace ConventionalRelease.Yaml

/-! ## Numbers in hexadecimal digits -/

/-- A hexadecimal digit is read as its value, and it is written as it stands. -/
theorem digitIn?_toUpper_digitChar {d : Nat} (h : d < 16) :
    digitIn? 16 (Nat.digitChar d).toUpper = some d ∧
    isWritable (Nat.digitChar d).toUpper = true ∧ isGap (Nat.digitChar d).toUpper = false := by
  interval_cases d <;> decide

theorem exists_toDigits_eq (n : Nat) :
    ∃ ds : List Nat, Nat.toDigits 16 n = ds.map Nat.digitChar ∧ (∀ d ∈ ds, d < 16) ∧
    ds.foldl (fun m d => 16 * m + d) 0 = n := by
  induction n using Nat.strong_induction_on with
  | _ n ih =>
    by_cases hn : n < 16
    · exact ⟨[n], Nat.toDigits_of_lt_base hn, by simpa using hn, by simp⟩
    · obtain ⟨ds, hds, hlt, hfold⟩ := ih (n / 16) (by omega)
      refine ⟨ds ++ [n % 16], ?_, ?_, ?_⟩
      · rw [Nat.toDigits_of_base_le (by omega) (by omega), hds, List.map_append]
        rfl
      · intro d hd
        rcases List.mem_append.1 hd with hd | hd
        · exact hlt d hd
        · rw [List.mem_singleton.1 hd]
          exact Nat.mod_lt n (by omega)
      · rw [List.foldl_append, hfold]
        exact Nat.div_add_mod n 16

/-- Leading zeros count for nothing. -/
theorem exists_hexText_eq (width n : Nat) :
    ∃ ds : List Nat, hexText width n = ds.map (fun d => (Nat.digitChar d).toUpper) ∧
    ds ≠ [] ∧ (∀ d ∈ ds, d < 16) ∧ ds.foldl (fun m d => 16 * m + d) 0 = n := by
  obtain ⟨ds, hds, hlt, hfold⟩ := exists_toDigits_eq n
  have hne : ds ≠ [] := by
    rintro rfl
    exact Nat.toDigits_ne_nil hds
  have hzeros (k : Nat) : (List.replicate k 0).foldl (fun m d => 16 * m + d) 0 = 0 := by
    induction k with
    | zero => rfl
    | succ k ih => exact ih
  refine ⟨List.replicate (width - ((Nat.toDigits 16 n).map Char.toUpper).length) 0 ++ ds, ?_, by
    simp [hne], ?_, ?_⟩
  · rw [hexText, List.leftpad, List.map_append, List.map_replicate, hds, List.map_map]
    rfl
  · intro d hd
    rcases List.mem_append.1 hd with hd | hd
    · rw [(List.mem_replicate.1 hd).2]
      omega
    · exact hlt d hd
  · rw [List.foldl_append, hzeros, hfold]

theorem digits?_hexText (width n : Nat) : digits? 16 (hexText width n) = some n := by
  obtain ⟨ds, hds, hne, hlt, hfold⟩ := exists_hexText_eq width n
  have hread : (hexText width n).mapM (digitIn? 16) = some ds := by
    rw [hds]
    clear hds hne hfold
    induction ds with
    | nil => rfl
    | cons d ds ih =>
      obtain ⟨hd, hds⟩ := List.forall_mem_cons.1 hlt
      rw [List.map_cons, List.mapM_cons, (digitIn?_toUpper_digitChar hd).1, ih hds]
      rfl
  have hsome : (hexText width n).isEmpty = false := by
    rw [hds]
    simpa using hne
  rw [digits?, hsome, hread]
  exact congrArg some hfold

theorem length_hexText {width n : Nat} (hpos : 0 < width) (h : n < 16 ^ width) :
    (hexText width n).length = width := by
  have hlength := (Nat.length_toDigits_le_iff (b := 16) (by omega) hpos).2 h
  rw [hexText, List.length_leftpad, List.length_map, Nat.max_eq_left hlength]

/-- The digits that are written are characters that are written as they stand, and no gaps. -/
theorem isWritable_of_mem_hexText {width n : Nat} {c : Char} (h : c ∈ hexText width n) :
    isWritable c = true ∧ isGap c = false := by
  obtain ⟨ds, hds, -, hlt, -⟩ := exists_hexText_eq width n
  rw [hds] at h
  obtain ⟨d, hd, rfl⟩ := List.mem_map.1 h
  exact (digitIn?_toUpper_digitChar (hlt d hd)).2

/-- The character whose number was written is read. -/
theorem characterOfHex?_hexText (width : Nat) (c : Char) :
    characterOfHex? (hexText width c.toNat) = some c := by
  rw [characterOfHex?, digits?_hexText]
  exact dif_pos c.valid

/-- Eight digits are enough for every character. -/
theorem toNat_lt (c : Char) : c.toNat < 16 ^ 8 := by
  rcases c.valid with h | h <;> simp only [Char.toNat] <;> omega

/-! ## Escapes -/

/-- The letter of an escape stands for its character. -/
theorem escaped?_of_escapeLetter? {c letter : Char} (h : escapeLetter? c = some letter) :
    escaped? letter = some c ∧ isWritable letter = true ∧ isGap letter = false := by
  rw [escapeLetter?, List.lookup_eq_some_iff] at h
  obtain ⟨front, back, hsplit, -⟩ := h
  have hmem : (c, letter) ∈ front ++ (c, letter) :: back :=
    List.mem_append_right front List.mem_cons_self
  rw [← hsplit] at hmem
  fin_cases hmem <;> decide

/-- The escape of a character by its number is read as the character. -/
theorem escape?_hexText {x : Char} {width : Nat} (hletter : escaped? x = none)
    (hwidth : escapeWidth? x = some width) {c : Char}
    (hlength : (hexText width c.toNat).length = width) (rest : List Char) :
    escape? (x :: (hexText width c.toNat ++ rest)) = some (c, width + 1) := by
  have htake : (hexText width c.toNat ++ rest).take width = hexText width c.toNat := by
    rw [List.take_append_of_le_length (Nat.le_of_eq hlength.symm),
      List.take_of_length_le (Nat.le_of_eq hlength)]
  rw [escape?, hletter, hwidth]
  simp [htake, hlength, characterOfHex?_hexText]

/-- An escape: it has no gaps, and after its backslash it is read as its character. -/
structure IsEscape (c : Char) (written : List Char) : Prop where
  begins : written.head? = some '\\'
  chars : ∀ ch ∈ written, isWritable ch = true ∧ isGap ch = false
  read : ∀ rest, escape? (written.tail ++ rest) = some (c, written.length - 1)

theorem isEscape_letter {c letter : Char} (h : escapeLetter? c = some letter) :
    IsEscape c ['\\', letter] := by
  obtain ⟨hmeaning, hletter⟩ := escaped?_of_escapeLetter? h
  refine ⟨rfl, List.forall_mem_cons.2 ⟨by decide, by simpa using hletter⟩, fun rest => ?_⟩
  simp [escape?, hmeaning]

theorem isEscape_hexText {x : Char} {width : Nat} (hletter : escaped? x = none)
    (hwidth : escapeWidth? x = some width) (hx : isWritable x = true ∧ isGap x = false)
    (hpos : 0 < width) {c : Char} (hc : c.toNat < 16 ^ width) :
    IsEscape c ('\\' :: x :: hexText width c.toNat) := by
  have hlength := length_hexText hpos hc
  refine ⟨rfl, List.forall_mem_cons.2 ⟨by decide,
    List.forall_mem_cons.2 ⟨hx, fun ch => isWritable_of_mem_hexText⟩⟩, fun rest => ?_⟩
  simpa [hlength] using escape?_hexText hletter hwidth hlength rest

/-- A character is written as it stands or as an escape. -/
theorem doubleCharacter_cases (c : Char) :
    doubleCharacter c = [c] ∧ isWritable c = true ∧ isBreak c = false ∧ c ≠ '"' ∧ c ≠ '\\' ∨
    IsEscape c (doubleCharacter c) := by
  rw [doubleCharacter]
  split
  · next h =>
    left
    simp only [Bool.and_eq_true, Bool.not_eq_true', decide_eq_true_eq] at h
    exact ⟨rfl, h.1.1.1, h.1.1.2, h.1.2, h.2⟩
  · right
    split
    · next h => exact isEscape_letter h
    · dsimp only
      split
      · exact isEscape_hexText rfl rfl (by decide) (by omega) (by omega)
      · split
        · exact isEscape_hexText rfl rfl (by decide) (by omega) (by omega)
        · exact isEscape_hexText rfl rfl (by decide) (by omega) (toNat_lt c)

/-- Between double quotes nothing is written but characters that are written as they stand, and no
breaks. -/
theorem mem_doubleText {s : List Char} {ch : Char} (h : ch ∈ doubleText s) :
    isWritable ch = true ∧ isBreak ch = false := by
  have hcharacter {c : Char} (h : ch ∈ doubleCharacter c) : isWritable ch = true ∧
      isBreak ch = false := by
    rcases doubleCharacter_cases c with ⟨hc, hwritable, hbreak, -⟩ | hescape
    · rw [hc, List.mem_singleton] at h
      exact h ▸ ⟨hwritable, hbreak⟩
    · exact ⟨(hescape.chars ch h).1, isBreak_of_not_isGap (hescape.chars ch h).2⟩
  simp only [doubleText, List.cons_append, List.mem_cons, List.mem_append, List.mem_flatMap,
    List.not_mem_nil, or_false] at h
  rcases h with rfl | ⟨c, -, h⟩ | rfl
  · decide
  · exact hcharacter h
  · decide

theorem length_doubleCharacter_le (c : Char) : (doubleCharacter c).length ≤ 6 * c.utf8Size := by
  have hpos := c.utf8Size_pos
  rw [doubleCharacter]
  split
  · simp only [List.length_singleton]
    omega
  · split
    · simp only [List.length_cons, List.length_nil]
      omega
    · dsimp only
      split
      · rw [List.length_cons, List.length_cons, length_hexText (by decide) (by omega)]
        omega
      · split
        · rw [List.length_cons, List.length_cons, length_hexText (by decide) (by omega)]
          omega
        · next hbeyond =>
          have hsize : c.utf8Size = 4 :=
            Char.utf8Size_eq_four_iff.2 (UInt32.lt_iff_toNat_lt.2 (by simpa using hbeyond))
          rw [List.length_cons, List.length_cons, length_hexText (by decide) (toNat_lt c)]
          omega

theorem length_doubleText_le (s : List Char) :
    (doubleText s).length ≤ 6 * String.utf8Len s + 2 := by
  have hlength : (s.flatMap doubleCharacter).length ≤ 6 * String.utf8Len s := by
    induction s with
    | nil => exact Nat.zero_le _
    | cons c s ih =>
      have hc := length_doubleCharacter_le c
      rw [List.flatMap_cons, List.length_append, String.utf8Len_cons]
      omega
  rw [doubleText, List.length_append, List.length_cons]
  simpa using hlength

theorem length_le_flatMap_doubleCharacter (s : List Char) :
    s.length ≤ (s.flatMap doubleCharacter).length := by
  induction s with
  | nil => exact Nat.zero_le _
  | cons c s ih =>
    have hpos : 0 < (doubleCharacter c).length := by
      rcases doubleCharacter_cases c with ⟨hc, -⟩ | hescape
      · simp [hc]
      · obtain ⟨more, hmore⟩ := List.head?_eq_some_iff.1 hescape.begins
        simp [hmore]
    rw [List.flatMap_cons, List.length_append, List.length_cons]
    omega

/-- What is written for a text begins with a gap only where the text begins with a space. -/
theorem stops_flatMap_doubleCharacter {s : List Char} (h : ∀ c, s.head? = some c → c ≠ ' ')
    (rest : List Char) :
    Text.stops isGap (s.flatMap doubleCharacter ++ '"' :: rest) = true := by
  cases s with
  | nil => rfl
  | cons c s =>
    rw [List.flatMap_cons]
    rcases doubleCharacter_cases c with ⟨hc, hwritable, hbreak, -⟩ | hescape
    · rw [hc]
      exact Bool.not_eq_true' _ ▸ Bool.eq_false_iff.2 fun hgap =>
        h c rfl (eq_space_of_isGap hwritable hbreak hgap)
    · obtain ⟨more, hmore⟩ := List.head?_eq_some_iff.1 hescape.begins
      rw [hmore]
      rfl

/-! ## Piece by piece -/

section Steps

variable {c : Cursor} {text rest : List Char}

theorem doubleQuotedFrom?_close (hcolumn : c.column ≠ 0) (h : c.rest = '"' :: rest) (fuel : Nat) :
    doubleQuotedFrom? (fuel + 1) text c = some ⟨text, c.past ['"'], false⟩ := by
  rw [doubleQuotedFrom?, Cursor.atDocumentMark_of_column hcolumn, h]
  rfl

theorem doubleQuotedFrom?_gap {gap : List Char} (hcolumn : c.column ≠ 0) (h : c.rest = gap ++ rest)
    (hne : gap ≠ []) (hgap : ∀ ch ∈ gap, isGap ch = true) (hrest : Text.stops isGap rest = true)
    (fuel : Nat) :
    doubleQuotedFrom? (fuel + 1) text c =
      doubleQuotedFrom? fuel (text ++ folded gap) (c.past gap) := by
  obtain ⟨ch, gap, rfl⟩ := List.exists_cons_of_ne_nil hne
  have hch := hgap ch List.mem_cons_self
  have hquote : ch ≠ '"' := by
    rintro rfl
    cases hch
  have hslash : ch ≠ '\\' := by
    rintro rfl
    cases hch
  rw [doubleQuotedFrom?, Cursor.atDocumentMark_of_column hcolumn, Cursor.span_eq h hgap hrest, h]
  simp [hch]

theorem doubleQuotedFrom?_char {ch : Char} (hcolumn : c.column ≠ 0) (h : c.rest = ch :: rest)
    (hch : isGap ch = false) (hquote : ch ≠ '"') (hslash : ch ≠ '\\') (fuel : Nat) :
    doubleQuotedFrom? (fuel + 1) text c = doubleQuotedFrom? fuel (text ++ [ch]) (c.past [ch]) := by
  rw [doubleQuotedFrom?, Cursor.atDocumentMark_of_column hcolumn, h]
  simp [hch, Cursor.past]

theorem doubleQuotedFrom?_escape {ch : Char} {written : List Char} (hcolumn : c.column ≠ 0)
    (h : c.rest = written ++ rest) (hescape : IsEscape ch written) (fuel : Nat) :
    doubleQuotedFrom? (fuel + 1) text c =
      doubleQuotedFrom? fuel (text ++ [ch]) (c.past written) := by
  obtain ⟨more, rfl⟩ := List.head?_eq_some_iff.1 hescape.begins
  have hread := hescape.read rest
  have hbreak : (more ++ rest).head?.any isBreak = false := by
    cases more with
    | nil => exact absurd (hescape.read []) nofun
    | cons x more => exact isBreak_of_not_isGap (hescape.chars x (by simp)).2
  have htake : ('\\' :: more ++ rest).take (('\\' :: more).length - 1 + 1) = '\\' :: more := by simp
  rw [doubleQuotedFrom?, Cursor.atDocumentMark_of_column hcolumn, h]
  simp only [List.cons_append, List.tail_cons, Bool.false_eq_true, if_false, hbreak,
    Option.bind_eq_bind] at hread htake ⊢
  rw [hread, Option.bind_some]
  dsimp only
  rw [htake]

end Steps

theorem flatMap_doubleCharacter_spaces (n : Nat) :
    (spaces n).flatMap doubleCharacter = spaces n := by
  induction n with
  | zero => rfl
  | succ n ih => exact congrArg (' ' :: ·) ih

/-- A text is read piece by piece: what was written for it begins with what was written for a piece
of it. -/
theorem doubleQuotedFrom?_piece {s rest : List Char} (hne : s ≠ []) {c : Cursor}
    (hcolumn : c.column ≠ 0) (hc : c.rest = s.flatMap doubleCharacter ++ '"' :: rest) :
    ∃ piece next written, s = piece ++ next ∧ piece ≠ [] ∧
      s.flatMap doubleCharacter = written ++ next.flatMap doubleCharacter ∧
        (c.past written).column ≠ 0 ∧
      ∀ text fuel, doubleQuotedFrom? (fuel + 1) text c =
        doubleQuotedFrom? fuel (text ++ piece) (c.past written) := by
  obtain ⟨ch, s, rfl⟩ := List.exists_cons_of_ne_nil hne
  by_cases hspace : ch = ' '
  · -- the gap is the spaces up to another character
    subst hspace
    obtain ⟨n, next, rfl, hnext⟩ := exists_eq_spaces_append s
    have hrun : ' ' :: (spaces n ++ next) = spaces (n + 1) ++ next := rfl
    have hwritten : (' ' :: (spaces n ++ next)).flatMap doubleCharacter =
        spaces (n + 1) ++ next.flatMap doubleCharacter := by
      rw [hrun, List.flatMap_append, flatMap_doubleCharacter_spaces]
    rw [hwritten, List.append_assoc] at hc
    refine ⟨spaces (n + 1), next, _, hrun, List.cons_ne_nil ' ' (spaces n), hwritten, ?_,
      fun text fuel => ?_⟩
    · exact Cursor.column_past_ne_zero hc (getLast?_spaces n) rfl
    · rw [doubleQuotedFrom?_gap hcolumn hc (List.cons_ne_nil ' ' (spaces n))
        (fun b => isGap_of_mem_spaces)
        (stops_flatMap_doubleCharacter hnext rest), folded_spaces]
  · rw [List.flatMap_cons, List.append_assoc] at hc
    refine ⟨[ch], s, doubleCharacter ch, rfl, List.cons_ne_nil _ _, List.flatMap_cons, ?_⟩
    rcases doubleCharacter_cases ch with ⟨hch, hwritable, hbreak, hquote, hslash⟩ | hescape
    · have hgap : isGap ch = false :=
        Bool.eq_false_iff.2 fun hgap => hspace (eq_space_of_isGap hwritable hbreak hgap)
      rw [hch] at hc ⊢
      exact ⟨Cursor.column_past_ne_zero hc rfl hbreak,
        fun text => doubleQuotedFrom?_char hcolumn hc hgap hquote hslash⟩
    · refine ⟨?_, fun text => doubleQuotedFrom?_escape hcolumn hc hescape⟩
      obtain ⟨more, hmore⟩ := List.head?_eq_some_iff.1 hescape.begins
      obtain ⟨front, last, hlast⟩ :=
        (List.eq_nil_or_concat (doubleCharacter ch)).resolve_left (by simp [hmore])
      have hend : (doubleCharacter ch).getLast? = some last := by
        rw [hlast, List.concat_eq_append, List.getLast?_concat]
      have hlast' : isGap last = false := (hescape.chars last (List.mem_of_getLast? hend)).2
      exact Cursor.column_past_ne_zero hc hend (isBreak_of_not_isGap hlast')

/-- What was written for a text between double quotes is read as the text, up to the closing
quote. -/
theorem doubleQuotedFrom?_flatMap {s rest : List Char} {c : Cursor} (hcolumn : c.column ≠ 0)
    (hc : c.rest = s.flatMap doubleCharacter ++ '"' :: rest) (text : List Char) {fuel : Nat}
    (hfuel : s.length < fuel) :
    doubleQuotedFrom? fuel text c = some ⟨text ++ s, c.past (s.flatMap doubleCharacter ++ ['"']),
      false⟩ := by
  induction fuel generalizing s c text with
  | zero => omega
  | succ fuel ih =>
    by_cases hne : s = []
    · subst hne
      rw [doubleQuotedFrom?_close hcolumn hc, List.append_nil]
      rfl
    · obtain ⟨piece, next, written, rfl, hpiece, hwritten, hcolumn', hread⟩ :=
        doubleQuotedFrom?_piece hne hcolumn hc
      have hnext : (c.past written).rest = next.flatMap doubleCharacter ++ '"' :: rest :=
        Cursor.rest_past (by rw [hc, hwritten, List.append_assoc])
      have hpos := List.length_pos_iff.2 hpiece
      rw [List.length_append] at hfuel
      rw [hread, ih hcolumn' hnext _ (by omega), hwritten, List.append_assoc, List.append_assoc,
        Cursor.past_append c]

/-- A text between double quotes is read as the text. -/
theorem quoted?_doubleText {s rest : List Char} {c : Cursor} (hc : c.rest = doubleText s ++ rest) :
    quoted? true c = some ⟨s, c.past (doubleText s), false⟩ := by
  have hopen : c.rest = ['"'] ++ (s.flatMap doubleCharacter ++ '"' :: rest) := by
    rw [hc]
    simp [doubleText]
  have hlength := length_le_flatMap_doubleCharacter s
  have hfuel : s.length < c.rest.length + 1 := by
    rw [hopen]
    simp only [List.length_append]
    omega
  have hcolumn := Cursor.column_past_ne_zero hopen rfl rfl
  rw [quoted?, if_pos rfl]
  exact doubleQuotedFrom?_flatMap hcolumn (Cursor.rest_past hopen) [] hfuel

end ConventionalRelease.Yaml
