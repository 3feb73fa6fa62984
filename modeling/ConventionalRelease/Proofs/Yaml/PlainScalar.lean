import ConventionalRelease.Proofs.Yaml.Cursor

/-!
# Plain scalars

A text that may be written plain is read word by word, and the words and the spaces between them are
the text again (`plainFrom?_eq`). As a value it ends with its line (`plain?_value`), as a key it
ends before its colon (`plain?_key`).
-/

namespace ConventionalRelease.Yaml

/-! ## Texts that may be written plain -/

/-- A text that is read as it stands: it begins with a token and does not end in a space, its gaps
are spaces, and no colon before a gap and no number sign after one is in it. -/
structure IsPlain (s : List Char) : Prop where
  ne_nil : s ≠ []
  begins : BeginsToken s
  colon : ∀ before rest, s = before ++ ':' :: rest → atGap rest = false
  sign : ∀ before c rest, s = before ++ c :: '#' :: rest → isGap c = false
  last : s.getLast? ≠ some ' '
  gap : ∀ c ∈ s, isGap c = true → c = ' '

/-- A mark within a text is found wherever it stands. -/
theorem hasInnerMark_append {a b : Char} {rest : List Char}
    (h : b = ':' ∧ atGap rest = true ∨ b = '#' ∧ isGap a = true) (before : List Char) :
    hasInnerMark (before ++ a :: b :: rest) = true := by
  induction before with
  | nil => rcases h with ⟨rfl, h⟩ | ⟨rfl, h⟩ <;> simp [hasInnerMark, h]
  | cons c before ih =>
    cases before with
    | nil =>
      rw [List.cons_append, List.nil_append, hasInnerMark]
      exact Bool.or_eq_true_iff.2 (.inr ih)
    | cons d before =>
      rw [List.cons_append, List.cons_append, hasInnerMark]
      exact Bool.or_eq_true_iff.2 (.inr ih)

theorem isPlain_of_allowsPlain {s : List Char} (h : allowsPlain s = true) (hne : s ≠ []) :
    IsPlain s := by
  simp only [allowsPlain, Bool.not_eq_true', Bool.or_eq_false_iff, List.any_eq_false,
    Bool.not_eq_true, decide_eq_true_eq, List.mem_append, Option.mem_toList] at h
  obtain ⟨⟨⟨⟨⟨hbegins, hinner⟩, -⟩, hends⟩, hbreaks⟩, hwritable⟩ := h
  have hgap : ∀ c ∈ s, isGap c = true → c = ' ' := fun c hc =>
    eq_space_of_isGap (by simpa using hwritable c hc) (by simpa using hbreaks c hc)
  obtain ⟨first, rest, rfl⟩ := List.exists_cons_of_ne_nil hne
  rw [beginsMarked, Bool.or_eq_false_iff] at hbegins
  refine ⟨hne, ?_, ?_, ?_, fun hlast => hends ' ' (.inr hlast) rfl, hgap⟩
  · rintro c ⟨⟩
    constructor
    · exact Bool.eq_false_iff.2 fun hfirst =>
        hends first (.inl rfl) (hgap first List.mem_cons_self hfirst)
    · rintro rfl
      exact absurd hbegins.1 (by decide)
  · intro before after hsplit
    refine Bool.eq_false_iff.2 fun hafter => ?_
    cases hbefore : before.reverse with
    | nil =>
      obtain rfl : before = [] := List.reverse_eq_nil_iff.1 hbefore
      obtain ⟨rfl, rfl⟩ := List.cons.inj hsplit
      simp [hafter] at hbegins
    | cons a front =>
      have hmark := hasInnerMark_append (a := a) (b := ':') (.inl ⟨rfl, hafter⟩) front.reverse
      have hcut : before = front.reverse ++ [a] := by
        rw [← List.reverse_reverse before, hbefore, List.reverse_cons]
      rw [hsplit, hcut, List.append_assoc, List.singleton_append, hmark] at hinner
      cases hinner
  · intro before c after hsplit
    refine Bool.eq_false_iff.2 fun hc => ?_
    rw [hsplit, hasInnerMark_append (.inr ⟨rfl, hc⟩)] at hinner
    cases hinner

/-- A plain scalar begins with a character that begins no other token. -/
theorem beginsPlain_of_allowsPlain {c : Char} {s : List Char} (h : allowsPlain (c :: s) = true)
    (rest : List Char) :
    isLeadingMark c = false ∧ (c = '?' ∨ c = ':' ∨ c = '-' → atGap (s ++ rest) = false) := by
  simp only [allowsPlain, Bool.not_eq_true', Bool.or_eq_false_iff, beginsMarked] at h
  obtain ⟨⟨⟨⟨⟨⟨hmark, hgap⟩, -⟩, -⟩, -⟩, -⟩, -⟩ := h
  refine ⟨hmark, fun hc => ?_⟩
  rcases hc with rfl | rfl | rfl <;> cases s <;> simp_all [atGap]

/-- A mark of three equal characters that a text does not begin with is not made up by what follows
the text. -/
theorem take_append_ne {s : List Char} (rest : List Char) {m : Char} (hs : s.take 3 ≠ [m, m, m])
    (hrest : rest.head? ≠ some m) :
    (s ++ rest).take 3 ≠ [m, m, m] := by
  intro heq
  by_cases hlength : 3 ≤ s.length
  · exact hs (by rw [← heq, List.take_append_of_le_length hlength])
  · have hmark : [m, m, m][s.length]? = some m := by
      rcases (by omega : s.length = 0 ∨ s.length = 1 ∨ s.length = 2) with
        h | h | h <;> rw [h] <;> rfl
    have hhead : rest.head? = [m, m, m][s.length]? := by
      rw [← heq, List.getElem?_take_of_lt (by omega),
        List.getElem?_append_right (Nat.le_refl s.length), Nat.sub_self, List.head?_eq_getElem?]
    exact hrest (hhead.trans hmark)

/-- A plain scalar is no mark of a document. -/
theorem atDocumentMark_of_allowsPlain {s : List Char} (h : allowsPlain s = true) {c : Char}
    (hc : c ≠ '-' ∧ c ≠ '.') (rest : List Char) (l k i : Nat) :
    (Cursor.mk (s ++ c :: rest) l k i).atDocumentMark = false := by
  simp only [allowsPlain, Bool.not_eq_true', Bool.or_eq_false_iff, beginsLikeMark,
    decide_eq_false_iff_not] at h
  obtain ⟨⟨⟨⟨-, hbegin, hend⟩, -⟩, -⟩, -⟩ := h
  have hdash := take_append_ne (c :: rest) hbegin fun h => hc.1 (Option.some.inj h)
  have hpoint := take_append_ne (c :: rest) hend fun h => hc.2 (Option.some.inj h)
  simp [Cursor.atDocumentMark, Cursor.startsWithMark, Cursor.beginMark, Cursor.endMark,
    hdash, hpoint]

/-- What follows a gap in a plain text is plain. -/
theorem IsPlain.of_append {front rest : List Char} (h : IsPlain (front ++ ' ' :: rest))
    (hne : rest ≠ []) (hbegins : ∀ c, rest.head? = some c → c ≠ ' ') : IsPlain rest where
  ne_nil := hne
  begins c hc := by
    obtain ⟨more, rfl⟩ := List.head?_eq_some_iff.1 hc
    constructor
    · exact Bool.eq_false_iff.2 fun hgap => hbegins c hc (h.gap c (by simp) hgap)
    · rintro rfl
      exact absurd (h.sign front ' ' more rfl) (by decide)
  colon before after hsplit := h.colon (front ++ ' ' :: before) after (by simp [hsplit])
  sign before c after hsplit := h.sign (front ++ ' ' :: before) c after (by simp [hsplit])
  last := by
    obtain ⟨init, c, rfl⟩ := (List.eq_nil_or_concat rest).resolve_left hne
    have hlast := h.last
    rw [List.concat_eq_append, ← List.cons_append, ← List.append_assoc,
      List.getLast?_concat] at hlast
    rwa [List.concat_eq_append, List.getLast?_concat]
  gap c hc := h.gap c (by simp [hc])

/-- A plain text is a single word, or a word, spaces, and a plain text. -/
theorem IsPlain.cut {s : List Char} (h : IsPlain s) : (∀ c ∈ s, isGap c = false) ∨
    ∃ word n rest, s = word ++ (spaces (n + 1) ++ rest) ∧ word ≠ [] ∧
      (∀ c ∈ word, isGap c = false) ∧ IsPlain rest := by
  by_cases hspace : ' ' ∈ s
  · obtain ⟨word, tail, rfl, hword⟩ := List.eq_append_cons_of_mem hspace
    obtain ⟨n, rest, rfl, hrest⟩ := exists_eq_spaces_append tail
    have hends : word ++ ' ' :: (spaces n ++ rest) = (word ++ spaces n) ++ ' ' :: rest := by
      rw [List.append_assoc, spaces, ← List.cons_append, ← List.replicate_succ,
        List.replicate_succ', List.append_assoc]
      rfl
    have hrestne : rest ≠ [] := by
      rintro rfl
      have hlast := h.last
      rw [hends, List.getLast?_concat] at hlast
      exact hlast rfl
    refine .inr ⟨word, n, rest, rfl, ?_, fun c hc => ?_, (hends ▸ h).of_append hrestne hrest⟩
    · rintro rfl
      exact absurd (h.begins ' ' rfl).1 (by decide)
    · refine Bool.eq_false_iff.2 fun hgap => hword ?_
      rwa [h.gap c (by simp [hc]) hgap] at hc
  · refine .inl fun c hc => Bool.eq_false_iff.2 fun hgap => hspace ?_
    rwa [h.gap c hc hgap] at hc

/-! ## Word by word -/

/-- A word is read up to a place where no word begins. -/
theorem plainWord?_append {word rest : List Char} (hword : ∀ c ∈ word, isGap c = false)
    (hcolon : ∀ before after, word = before ++ ':' :: after → atGap (after ++ rest) = false)
    (hrest : plainWord? false rest = some []) : plainWord? false (word ++ rest) = some word := by
  induction word with
  | nil => exact hrest
  | cons c word ih =>
    obtain ⟨hc, hword⟩ := List.forall_mem_cons.1 hword
    have hends : c = ':' → atGap (word ++ rest) = false := by
      rintro rfl
      exact hcolon [] word rfl
    have htail := ih hword fun before after h => hcolon (c :: before) after (by rw [h]; rfl)
    rw [List.cons_append, plainWord?, hc, htail]
    by_cases hmark : c = ':'
    · simp [hends hmark]
    · simp [hmark]

/-- The lines of a gap are parts of it. -/
theorem mem_of_mem_linesAfterBreak {line gap : List Char} {c : Char}
    (h : line ∈ linesAfterBreak gap) (hc : c ∈ line) :
    c ∈ gap := by
  induction gap with
  | nil => cases h
  | cons b gap ih =>
    rw [linesAfterBreak] at h
    split at h
    · rcases List.mem_cons.1 h with rfl | h
      · exact List.mem_cons_of_mem b ((List.takeWhile_sublist _).mem hc)
      · exact List.mem_cons_of_mem b (ih h)
    · exact List.mem_cons_of_mem b (ih h)

theorem hasTabInIndentation_of_not_mem {gap : List Char} (h : '\t' ∉ gap) (indent : Nat) :
    hasTabInIndentation indent gap = false := by
  rw [hasTabInIndentation, List.any_eq_false]
  intro line hline htab
  exact h (mem_of_mem_linesAfterBreak hline (List.mem_of_mem_take (List.contains_iff_mem.1 htab)))

theorem tab_not_mem_spaces (n : Nat) : '\t' ∉ spaces n := by
  simp [spaces]

/-- What comes after a word of a plain scalar. -/
def afterWord? (indent fuel : Nat) (text : List Char) (c : Cursor) : Option Scalar :=
  let (gap, next) := c.span isGap
  if hasTabInIndentation indent gap then none
  else if next.column < indent then some ⟨text, next, gap.any isBreak⟩
  else plainFrom? false indent fuel text gap next

theorem plainFrom?_word {c : Cursor} {word : List Char} (hmark : c.atDocumentMark = false)
    (hsign : c.rest.head? ≠ some '#') (hword : plainWord? false c.rest = some word)
    (hne : word ≠ []) (indent fuel : Nat) (text gap : List Char) :
    plainFrom? false indent (fuel + 1) text gap c =
      afterWord? indent fuel (text ++ folded gap ++ word) (c.past word) := by
  rw [plainFrom?, hmark, Bool.false_or, if_neg (by simpa using hsign), hword, Option.bind_eq_bind,
    Option.bind_some, if_neg (by simpa using hne)]
  simp [afterWord?]

/-- A word is read with the spaces after it, up to the next word. -/
theorem plainFrom?_spaces {word rest : List Char} {n l k i indent : Nat} (hne : word ≠ [])
    (hword : ∀ c ∈ word, isGap c = false)
    (hcolon : ∀ before after, word = before ++ ':' :: after →
      atGap (after ++ (spaces (n + 1) ++ rest)) = false)
    (hsign : word.head? ≠ some '#') (hstops : Text.stops isGap rest = true)
    (hmark : (Cursor.mk (word ++ (spaces (n + 1) ++ rest)) l k i).atDocumentMark = false)
    (hindent : indent ≤ k + 1) (text gap : List Char) (fuel : Nat) :
    plainFrom? false indent (fuel + 1) text gap ⟨word ++ (spaces (n + 1) ++ rest), l, k, i⟩ =
      plainFrom? false indent fuel (text ++ folded gap ++ word) (spaces (n + 1))
        ⟨rest, l, k + word.length + (n + 1), i + word.length + (n + 1)⟩ := by
  have hread := plainWord?_append hword hcolon
    (rfl : plainWord? false (spaces (n + 1) ++ rest) = some [])
  have hhead : (word ++ (spaces (n + 1) ++ rest)).head? ≠ some '#' := by
    obtain ⟨c, more, rfl⟩ := List.exists_cons_of_ne_nil hne
    exact hsign
  have hcolumn : ¬ k + word.length + (n + 1) < indent := by
    have hpos := List.length_pos_iff.2 hne
    omega
  rw [plainFrom?_word hmark hhead hread hne, Cursor.past_line fun c hc =>
    isBreak_of_not_isGap (hword c hc), afterWord?, Cursor.span_spaces hstops]
  simp only [hasTabInIndentation_of_not_mem (tab_not_mem_spaces (n + 1)), Bool.false_eq_true,
    if_false, hcolumn]

/-- A plain text is read up to a place where no word begins. -/
theorem plainFrom?_eq {s rest : List Char} (h : IsPlain s) (hrest : plainWord? false rest = some [])
    {l k i indent : Nat} (hmark : (Cursor.mk (s ++ rest) l k i).atDocumentMark = false)
    (hindent : indent ≤ k + 1) (text gap : List Char) {fuel : Nat} (hfuel : s.length ≤ fuel) :
    ∃ left, fuel ≤ left + s.length ∧
      plainFrom? false indent (fuel + 1) text gap ⟨s ++ rest, l, k, i⟩ =
      afterWord? indent left (text ++ folded gap ++ s) ⟨rest, l, k + s.length, i + s.length⟩ := by
  induction fuel generalizing s l k i text gap with
  | zero => exact absurd (List.eq_nil_of_length_eq_zero (Nat.le_zero.1 hfuel)) h.ne_nil
  | succ fuel ih =>
    rcases h.cut with hword | ⟨word, n, next, rfl, hne, hword, hnext⟩
    · have hsign : (s ++ rest).head? ≠ some '#' := by
        obtain ⟨c, more, rfl⟩ := List.exists_cons_of_ne_nil h.ne_nil
        exact fun hc => (h.begins c rfl).2 (Option.some.inj hc)
      have hcolon : ∀ before after, s = before ++ ':' :: after → atGap (after ++ rest) = false := by
        rintro before (_ | ⟨d, after⟩) hsplit
        · exact absurd (h.colon before [] hsplit) (by decide)
        · exact h.colon before (d :: after) hsplit
      refine ⟨fuel + 1, Nat.le_add_right _ _, ?_⟩
      rw [plainFrom?_word hmark hsign (plainWord?_append hword hcolon hrest) h.ne_nil,
        Cursor.past_line fun c hc => isBreak_of_not_isGap (hword c hc)]
    · have hsign : word.head? ≠ some '#' := by
        obtain ⟨c, more, rfl⟩ := List.exists_cons_of_ne_nil hne
        exact fun hc => (h.begins c rfl).2 (Option.some.inj hc)
      have hcolon : ∀ before after, word = before ++ ':' :: after →
          atGap (after ++ (spaces (n + 1) ++ (next ++ rest))) = false := by
        intro before after hsplit
        have hafter := h.colon before (after ++ (spaces (n + 1) ++ next)) (by simp [hsplit])
        cases after with
        | nil => cases hafter
        | cons d after => exact hafter
      have hstops : Text.stops isGap (next ++ rest) = true := by
        obtain ⟨c, more, rfl⟩ := List.exists_cons_of_ne_nil hnext.ne_nil
        rw [List.cons_append, Text.stops_cons, (hnext.begins c rfl).1, Bool.not_false]
      have hmark' :
          (Cursor.mk (next ++ rest) l (k + word.length + (n + 1))
            (i + word.length + (n + 1))).atDocumentMark =
          false := Cursor.atDocumentMark_of_column (Nat.succ_ne_zero _)
      have hlength :
          (word ++ (spaces (n + 1) ++ next)).length = word.length + (n + 1) + next.length := by
        simp [Nat.add_assoc]
      have htext : word ++ (spaces (n + 1) ++ next) ++ rest =
          word ++ (spaces (n + 1) ++ (next ++ rest)) := by
        simp
      have hpos := List.length_pos_iff.2 hne
      rw [hlength] at hfuel ⊢
      rw [htext] at hmark ⊢
      obtain ⟨left, hleft, hreads⟩ :=
        ih hnext hmark' (by omega) (text ++ folded gap ++ word) (spaces (n + 1)) (by omega)
      refine ⟨left, by omega, ?_⟩
      rw [plainFrom?_spaces hne hword hcolon hsign hstops hmark hindent, hreads, folded_spaces]
      simp only [List.append_assoc, Nat.add_assoc]

/-- A plain value ends with its line, before a line that is indented less. -/
theorem plain?_value {s rest text : List Char} {column indent : Nat} (h : IsPlain s)
    (hmargin : Margin column rest text) (hcolumn : column < indent) {l k i : Nat}
    (hindent : indent ≤ k + 1)
    (hmark : (Cursor.mk (s ++ '\n' :: text) l k i).atDocumentMark = false) :
    plain? false indent ⟨s ++ '\n' :: text, l, k, i⟩ =
      some ⟨s, ⟨rest, l + 1, column, i + s.length + 1 + column⟩, true⟩ := by
  have hfuel : s.length ≤ (s ++ '\n' :: text).length := by simp
  obtain ⟨left, -, hread⟩ := plainFrom?_eq h rfl hmark hindent [] [] hfuel
  have hgap :=
    hmargin.span_gap (List.cons_ne_nil '\n' []) (by simp [isBreak]) l (k + s.length) (i + s.length)
  have htab : '\t' ∉ '\n' :: spaces column := by simp [spaces]
  rw [plain?, hread, afterWord?, ← List.singleton_append, hgap]
  simp [hasTabInIndentation_of_not_mem htab, hcolumn, folded, isBreak]

/-- A plain key ends before its colon. -/
theorem plain?_key {s text : List Char} {indent : Nat} (h : IsPlain s) (hgap : atGap text = true)
    {l k i : Nat} (hindent : indent ≤ k + 1)
    (hmark : (Cursor.mk (s ++ ':' :: text) l k i).atDocumentMark = false) :
    plain? false indent ⟨s ++ ':' :: text, l, k, i⟩ =
      some ⟨s, ⟨':' :: text, l, k + s.length, i + s.length⟩, false⟩ := by
  have hfuel : s.length ≤ (s ++ ':' :: text).length := by simp
  have hends : plainWord? false (':' :: text) = some [] := by
    rw [plainWord?]
    simp [hgap, isGap, isSpace, isBreak]
  obtain ⟨left, hleft, hread⟩ := plainFrom?_eq h hends hmark hindent [] [] hfuel
  have hgap : (Cursor.mk (':' :: text) l (k + s.length) (i + s.length)).span isGap =
      ([], ⟨':' :: text, l, k + s.length, i + s.length⟩) := rfl
  have htab := hasTabInIndentation_of_not_mem (List.not_mem_nil (a := '\t')) indent
  have hpos := List.length_pos_iff.2 h.ne_nil
  have hcolumn : ¬ k + s.length < indent := by omega
  rw [List.length_append, List.length_cons] at hleft
  obtain ⟨left, rfl⟩ : ∃ n, left = n + 1 := ⟨left - 1, by omega⟩
  have hmark' := Cursor.atDocumentMark_of_column (c := ⟨':' :: text, l, k + s.length, i + s.length⟩)
    (Nat.ne_of_gt (Nat.add_pos_right k hpos))
  rw [plain?, hread, afterWord?, hgap]
  simp [htab, hcolumn, plainFrom?, hmark', hends, folded]

end ConventionalRelease.Yaml
