import ConventionalRelease.Proofs.Yaml.Cursor

/-!
# Scalars between single quotes

A text between single quotes is read piece by piece: a character, a quote that is written twice, or
a gap as a whole. What was written for the text is read as the text, up to the closing quote
(`singleQuotedFrom?_go`).
-/

namespace ConventionalRelease.Yaml

/-! ## Texts that may be written between single quotes -/

/-- A text that is read as it stands between single quotes: it has no line feed, its gaps are spaces
and separators, and these do not meet. -/
structure IsSingle (s : List Char) : Prop where
  line_feed : '\n' ∉ s
  gap : ∀ c ∈ s, isGap c = true → isBreak c = false → c = ' '
  space_break : ∀ before b rest, s = before ++ ' ' :: b :: rest → isBreak b = false
  break_space : ∀ before b rest, s = before ++ b :: ' ' :: rest → isBreak b = false

/-- A pair within a text is found wherever it stands. -/
theorem hasPair_append {p q : Char → Bool} {a b : Char} {rest : List Char} (ha : p a = true)
    (hb : q b = true) (before : List Char) : hasPair p q (before ++ a :: b :: rest) = true := by
  induction before with
  | nil => simp [hasPair, ha, hb]
  | cons c before ih =>
    cases before with
    | nil =>
      rw [hasPair] at ih ⊢
      simp only [List.cons_append, List.nil_append, List.tail_cons, List.zip_cons_cons,
        List.any_cons] at ih ⊢
      simp [ih]
    | cons d before =>
      rw [hasPair] at ih ⊢
      simp only [List.cons_append, List.tail_cons, List.zip_cons_cons, List.any_cons] at ih ⊢
      simp [ih]

theorem isSingle_of_allowsSingle {s : List Char} (h : allowsSingle s = true) (hfeed : '\n' ∉ s) :
    IsSingle s := by
  simp only [allowsSingle, Bool.not_eq_true', Bool.or_eq_false_iff, List.any_eq_false] at h
  obtain ⟨⟨hafter, hbefore⟩, hwritable⟩ := h
  refine ⟨hfeed, fun c hc hgap hbreak => ?_, fun before b rest hsplit => ?_,
    fun before b rest hsplit => ?_⟩
  · exact eq_space_of_isGap (by simpa using hwritable c hc) hbreak hgap
  · refine Bool.eq_false_iff.2 fun hb => ?_
    rw [hsplit, hasPair_append (by simp) hb] at hbefore
    cases hbefore
  · refine Bool.eq_false_iff.2 fun hb => ?_
    rw [hsplit, hasPair_append hb (by simp)] at hafter
    cases hafter

/-- What is left of such a text is such a text. -/
theorem IsSingle.of_append {front rest : List Char} (h : IsSingle (front ++ rest)) :
    IsSingle rest where
  line_feed hmem := h.line_feed (List.mem_append_right front hmem)
  gap c hc := h.gap c (List.mem_append_right front hc)
  space_break before b after hsplit := h.space_break (front ++ before) b after (by simp [hsplit])
  break_space before b after hsplit := h.break_space (front ++ before) b after (by simp [hsplit])

/-! ## What is written -/

section Written

variable {indent : Nat}

theorem singleText_go_spaces (n : Nat) (s : List Char) :
    singleText.go indent false (spaces n ++ s) = spaces n ++ singleText.go indent false s := by
  induction n with
  | zero => rfl
  | succ n ih => exact congrArg (' ' :: ·) ih

theorem singleText_go_breaks {breaks : List Char} (h : ∀ b ∈ breaks, isBreak b = true)
    (s : List Char) :
    singleText.go indent true (breaks ++ s) = breaks ++ singleText.go indent true s := by
  induction breaks with
  | nil => rfl
  | cons b breaks ih =>
    obtain ⟨hb, hbreaks⟩ := List.forall_mem_cons.1 h
    rw [List.cons_append, singleText.go, if_pos hb, ih hbreaks, List.cons_append]

/-- A line begins with its indentation. -/
theorem singleText_go_true {s : List Char} (h : Text.stops isBreak s = true) :
    singleText.go indent true s = spaces indent ++ singleText.go indent false s := by
  cases s with
  | nil => simp [singleText.go]
  | cons c s =>
    have hc : isBreak c = false := by simpa using h
    simp [singleText.go, hc]

/-- What is written for a text begins a token where the text does, and at its end the quote does. -/
theorem stops_singleText_go {s : List Char} (h : Text.stops isGap s = true) (rest : List Char) :
    Text.stops isGap (singleText.go indent false s ++ '\'' :: rest) = true := by
  cases s with
  | nil => rfl
  | cons c s =>
    have hgap : isGap c = false := by simpa using h
    rw [singleText.go, isBreak_of_not_isGap hgap]
    by_cases hc : c = '\''
    · subst hc
      rfl
    · simp [hc, hgap]

theorem length_le_singleText_go (indent : Nat) (broken : Bool) (s : List Char) :
    s.length ≤ (singleText.go indent broken s).length := by
  induction s generalizing broken with
  | nil => exact Nat.zero_le _
  | cons c s ih =>
    rw [singleText.go]
    split
    · simpa using ih true
    · have hlength := ih false
      have hquote : 0 < (if c = '\'' then ['\'', '\''] else [c]).length := by split <;> simp
      simp only [List.length_append, List.length_cons]
      omega

/-- What is written between single quotes are the characters of the text, quotes and spaces. -/
theorem mem_singleText {s : List Char} {c : Char} (h : c ∈ singleText indent s) :
    c = '\'' ∨ c = ' ' ∨ c ∈ s := by
  have hindent {broken : Bool} (h : c ∈ if broken then spaces indent else []) : c = ' ' := by
    split at h
    · exact (List.mem_replicate.1 h).2
    · cases h
  have hgo (broken : Bool) (s : List Char) (h : c ∈ singleText.go indent broken s) :
      c = '\'' ∨ c = ' ' ∨ c ∈ s := by
    induction s generalizing broken with
    | nil => exact .inr (.inl (hindent h))
    | cons d s ih =>
      have hrest {broken : Bool} (h : c ∈ singleText.go indent broken s) : c = '\'' ∨ c = ' ' ∨
          c ∈ d :: s :=
        (ih broken h).imp_right (Or.imp_right (List.mem_cons_of_mem d))
      rw [singleText.go] at h
      split at h
      · rcases List.mem_cons.1 h with rfl | h
        · simp
        · exact hrest h
      · rw [List.mem_append, List.mem_append] at h
        rcases h with (h | h) | h
        · exact .inr (.inl (hindent h))
        · split at h
          · exact .inl (by simpa using h)
          · exact .inr (.inr (by simp_all))
        · exact hrest h
  rw [singleText] at h
  simp only [List.cons_append, List.mem_cons, List.mem_append, List.not_mem_nil, or_false] at h
  rcases h with h | h | h
  · exact .inl h
  · exact hgo false s h
  · exact .inl h

/-- Without indentation nothing but quotes is added. -/
theorem length_singleText_le (s : List Char) : (singleText 0 s).length ≤ 2 * s.length + 2 := by
  have hgo (broken : Bool) (s : List Char) : (singleText.go 0 broken s).length ≤ 2 * s.length := by
    induction s generalizing broken with
    | nil => cases broken <;> simp [singleText.go, spaces]
    | cons c s ih =>
      have htrue := ih true
      have hfalse := ih false
      have hindent : (if broken then spaces 0 else []).length = 0 := by cases broken <;> rfl
      have hquote : (if c = '\'' then ['\'', '\''] else [c]).length ≤ 2 := by split <;> simp
      rw [singleText.go]
      split <;> simp only [List.length_append, List.length_cons] <;> omega
  have hlength := hgo false s
  rw [singleText]
  simp only [List.length_append, List.length_cons, List.length_nil]
  omega

end Written

/-! ## Piece by piece -/

section Steps

variable {c : Cursor} {text rest : List Char}

theorem singleQuotedFrom?_close (hcolumn : c.column ≠ 0) (h : c.rest = '\'' :: rest)
    (hrest : rest.head? ≠ some '\'') (fuel : Nat) :
    singleQuotedFrom? (fuel + 1) text c = some ⟨text, c.past ['\''], false⟩ := by
  rw [singleQuotedFrom?, Cursor.atDocumentMark_of_column hcolumn, h]
  cases rest with
  | nil => rfl
  | cons d rest =>
    have hd : d ≠ '\'' := fun hd => hrest (congrArg some hd)
    simp [hd, Cursor.past]

theorem singleQuotedFrom?_quote (hcolumn : c.column ≠ 0) (h : c.rest = '\'' :: '\'' :: rest)
    (fuel : Nat) :
    singleQuotedFrom? (fuel + 1) text c =
      singleQuotedFrom? fuel (text ++ ['\'']) (c.past ['\'', '\'']) := by
  rw [singleQuotedFrom?, Cursor.atDocumentMark_of_column hcolumn, h]
  rfl

theorem singleQuotedFrom?_gap {gap : List Char} (hcolumn : c.column ≠ 0) (h : c.rest = gap ++ rest)
    (hne : gap ≠ []) (hgap : ∀ ch ∈ gap, isGap ch = true) (hrest : Text.stops isGap rest = true)
    (fuel : Nat) :
    singleQuotedFrom? (fuel + 1) text c =
      singleQuotedFrom? fuel (text ++ folded gap) (c.past gap) := by
  obtain ⟨ch, gap, rfl⟩ := List.exists_cons_of_ne_nil hne
  have hch := hgap ch List.mem_cons_self
  have hquote : ch ≠ '\'' := by
    rintro rfl
    cases hch
  rw [singleQuotedFrom?, Cursor.atDocumentMark_of_column hcolumn, Cursor.span_eq h hgap hrest, h]
  simp [hquote, hch]

theorem singleQuotedFrom?_char {ch : Char} (hcolumn : c.column ≠ 0) (h : c.rest = ch :: rest)
    (hch : isGap ch = false) (hquote : ch ≠ '\'') (fuel : Nat) :
    singleQuotedFrom? (fuel + 1) text c = singleQuotedFrom? fuel (text ++ [ch]) (c.past [ch]) := by
  rw [singleQuotedFrom?, Cursor.atDocumentMark_of_column hcolumn, h]
  simp [hquote, hch, Cursor.past]

end Steps

/-- What was written for a text begins with what was written for a piece of it, and the piece is
read from there. -/
def ReadsPiece (indent : Nat) (s : List Char) (c : Cursor) : Prop :=
  ∃ piece next written, s = piece ++ next ∧ piece ≠ [] ∧
    singleText.go indent false s = written ++ singleText.go indent false next ∧
      (c.past written).column ≠ 0 ∧
    ∀ text fuel,
    singleQuotedFrom? (fuel + 1) text c = singleQuotedFrom? fuel (text ++ piece) (c.past written)

section Pieces

variable {indent : Nat} {ch : Char} {s rest : List Char} {c : Cursor}

/-- Breaks make up a gap with the indentation after them. -/
theorem readsPiece_break (hs : IsSingle (ch :: s)) (hbreak : isBreak ch = true)
    (hindent : indent ≠ 0) (hc : c.rest = singleText.go indent false (ch :: s) ++ '\'' :: rest)
    (hcolumn : c.column ≠ 0) :
    ReadsPiece indent (ch :: s) c := by
  obtain ⟨breaks, next, rfl, hbreaks, hstops⟩ := Text.exists_eq_append_of_stops isBreak s
  obtain ⟨n, rfl⟩ := Nat.exists_eq_succ_of_ne_zero hindent
  have hall : ∀ b ∈ ch :: breaks, isBreak b = true := List.forall_mem_cons.2 ⟨hbreak, hbreaks⟩
  have hfeed : ch ≠ '\n' := by
    rintro rfl
    exact hs.line_feed List.mem_cons_self
  -- a space after the last break would stand next to it
  have hnext : Text.stops isGap next = true := by
    obtain ⟨front, b, hends⟩ :=
      (List.eq_nil_or_concat (ch :: breaks)).resolve_left (List.cons_ne_nil ch breaks)
    cases next with
    | nil => rfl
    | cons d next =>
      rw [Text.stops_cons, Bool.not_eq_true']
      refine Bool.eq_false_iff.2 fun hd => ?_
      obtain rfl := hs.gap d (by simp) hd (by simpa using hstops)
      have hb := hs.break_space front b next (by rw [← List.cons_append, hends]; simp)
      exact Bool.false_ne_true (hb.symm.trans (hall b (by rw [hends]; simp)))
  have hwritten : singleText.go (n + 1) false (ch :: (breaks ++ next)) =
      (ch :: breaks ++ spaces (n + 1)) ++ singleText.go (n + 1) false next := by
    rw [singleText.go, if_pos hbreak, singleText_go_breaks hbreaks, singleText_go_true hstops]
    simp
  have hgap : ∀ b ∈ ch :: breaks ++ spaces (n + 1), isGap b = true := by
    intro b hb
    rcases List.mem_append.1 hb with hb | hb
    · exact isGap_of_isBreak (hall b hb)
    · exact isGap_of_mem_spaces hb
  have hlast : (ch :: breaks ++ spaces (n + 1)).getLast? = some ' ' := by
    rw [spaces_succ, ← List.append_assoc, List.getLast?_concat]
  rw [hwritten, List.append_assoc] at hc
  refine ⟨ch :: breaks, next, _, rfl, List.cons_ne_nil ch breaks, hwritten,
    Cursor.column_past_ne_zero hc hlast rfl, fun text fuel => ?_⟩
  rw [singleQuotedFrom?_gap hcolumn hc (by simp) hgap (stops_singleText_go hnext rest),
    folded_breaks hfeed hall]

/-- Spaces make up a gap up to another character. -/
theorem readsPiece_space (hs : IsSingle (' ' :: s))
    (hc : c.rest = singleText.go indent false (' ' :: s) ++ '\'' :: rest) (hcolumn : c.column ≠ 0) :
    ReadsPiece indent (' ' :: s) c := by
  obtain ⟨n, next, rfl, hspace⟩ := exists_eq_spaces_append s
  have hrun : ' ' :: (spaces n ++ next) = spaces (n + 1) ++ next := rfl
  have hnext : Text.stops isGap next = true := by
    cases next with
    | nil => rfl
    | cons d next =>
      have hd : isBreak d = false :=
        hs.space_break (spaces n) d next (by rw [hrun, spaces_succ]; simp)
      rw [Text.stops_cons, Bool.not_eq_true']
      exact Bool.eq_false_iff.2 fun hgap => hspace d rfl (hs.gap d (by simp) hgap hd)
  have hwritten : singleText.go indent false (' ' :: (spaces n ++ next)) =
      spaces (n + 1) ++ singleText.go indent false next := singleText_go_spaces (n + 1) next
  rw [hwritten, List.append_assoc] at hc
  refine ⟨spaces (n + 1), next, _, hrun, List.cons_ne_nil ' ' (spaces n), hwritten,
    Cursor.column_past_ne_zero hc (getLast?_spaces n) rfl, fun text fuel => ?_⟩
  rw [singleQuotedFrom?_gap hcolumn hc (List.cons_ne_nil ' ' (spaces n))
    (fun b => isGap_of_mem_spaces)
    (stops_singleText_go hnext rest), folded_spaces]

/-- Any other character is a piece; a quote is written twice. -/
theorem readsPiece_char (hgap : isGap ch = false)
    (hc : c.rest = singleText.go indent false (ch :: s) ++ '\'' :: rest) (hcolumn : c.column ≠ 0) :
    ReadsPiece indent (ch :: s) c := by
  have hch := isBreak_of_not_isGap hgap
  by_cases hquote : ch = '\''
  · subst hquote
    exact ⟨['\''], s, ['\'', '\''], rfl, List.cons_ne_nil _ _, rfl,
      Cursor.column_past_ne_zero hc rfl rfl, fun text fuel =>
        singleQuotedFrom?_quote hcolumn hc fuel⟩
  · have hwritten :
        singleText.go indent false (ch :: s) = [ch] ++ singleText.go indent false s := by
      simp [singleText.go, hch, hquote]
    rw [hwritten] at hc
    exact ⟨[ch], s, [ch], rfl, List.cons_ne_nil _ _, hwritten,
      Cursor.column_past_ne_zero hc rfl hch, fun text fuel =>
        singleQuotedFrom?_char hcolumn hc hgap hquote fuel⟩

/-- A text is read piece by piece. -/
theorem readsPiece (hs : IsSingle s) (hne : s ≠ [])
    (hindent : (∃ b ∈ s, isBreak b = true) → indent ≠ 0) (hcolumn : c.column ≠ 0)
    (hc : c.rest = singleText.go indent false s ++ '\'' :: rest) : ReadsPiece indent s c := by
  obtain ⟨ch, s, rfl⟩ := List.exists_cons_of_ne_nil hne
  by_cases hbreak : isBreak ch = true
  · exact readsPiece_break hs hbreak (hindent ⟨ch, List.mem_cons_self, hbreak⟩) hc hcolumn
  · by_cases hgap : isGap ch = true
    · obtain rfl := hs.gap ch List.mem_cons_self hgap (by simpa using hbreak)
      exact readsPiece_space hs hc hcolumn
    · exact readsPiece_char (by simpa using hgap) hc hcolumn

end Pieces

/-- What was written for a text between single quotes is read as the text, up to the closing
quote. -/
theorem singleQuotedFrom?_go {indent : Nat} {s rest : List Char} (hs : IsSingle s)
    (hindent : (∃ b ∈ s, isBreak b = true) → indent ≠ 0) (hrest : rest.head? ≠ some '\'')
    {c : Cursor} (hcolumn : c.column ≠ 0)
    (hc : c.rest = singleText.go indent false s ++ '\'' :: rest) (text : List Char) {fuel : Nat}
    (hfuel : s.length < fuel) : singleQuotedFrom? fuel text c =
      some ⟨text ++ s, c.past (singleText.go indent false s ++ ['\'']), false⟩ := by
  induction fuel generalizing s c text with
  | zero => omega
  | succ fuel ih =>
    by_cases hne : s = []
    · subst hne
      rw [singleQuotedFrom?_close hcolumn hc hrest, List.append_nil]
      rfl
    · obtain ⟨piece, next, written, rfl, hpiece, hwritten, hcolumn', hread⟩ :=
        readsPiece hs hne hindent hcolumn hc
      have hnext : (c.past written).rest = singleText.go indent false next ++ '\'' :: rest :=
        Cursor.rest_past (by rw [hc, hwritten, List.append_assoc])
      have hpos := List.length_pos_iff.2 hpiece
      rw [List.length_append] at hfuel
      rw [hread, ih hs.of_append (fun ⟨b, hb, h⟩ => hindent ⟨b, List.mem_append_right piece hb, h⟩)
        hcolumn' hnext _ (by omega), hwritten, List.append_assoc, List.append_assoc,
        Cursor.past_append c]

/-- A text between single quotes is read as the text. -/
theorem quoted?_singleText {indent : Nat} {s rest : List Char} (hs : IsSingle s)
    (hindent : (∃ b ∈ s, isBreak b = true) → indent ≠ 0) (hrest : rest.head? ≠ some '\'')
    {c : Cursor} (hc : c.rest = singleText indent s ++ rest) :
    quoted? false c = some ⟨s, c.past (singleText indent s), false⟩ := by
  have hopen : c.rest = ['\''] ++ (singleText.go indent false s ++ '\'' :: rest) := by
    rw [hc]
    simp [singleText]
  have hlength := length_le_singleText_go indent false s
  have hfuel : s.length < c.rest.length + 1 := by
    rw [hopen]
    simp
    omega
  have hcolumn := Cursor.column_past_ne_zero hopen rfl rfl
  rw [quoted?, if_neg Bool.false_ne_true]
  exact singleQuotedFrom?_go hs hindent hrest hcolumn (Cursor.rest_past hopen) [] hfuel

end ConventionalRelease.Yaml
