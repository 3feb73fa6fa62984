import ConventionalRelease.Proofs.Yaml.Scan

/-!
# Scalars on their lines

Whatever the style of a scalar is, the line that is written for it yields the scalar as a token, up
to a line that is indented less (`Place.yields_scalarLine`). A key yields its tokens up to what
follows its colon (`Place.yields_simpleKey`).
-/

namespace ConventionalRelease.Yaml

/-! ## Styles -/

namespace ScalarStyle

variable {s : List Char}

theorem allowsPlain_of_eq (h : ScalarStyle.of s = plain) :
    allowsPlain s = true ∧ isAmbiguous s = false := by
  rw [ScalarStyle.of] at h
  split at h
  · split at h <;> cases h
  · split at h
    · next hplain => simpa using hplain
    · split at h <;> cases h

theorem allowsSingle_of_eq (h : ScalarStyle.of s = single) : allowsSingle s = true ∧ '\n' ∉ s := by
  rw [ScalarStyle.of] at h
  split at h
  · split at h <;> cases h
  · next hfeed =>
    split at h
    · cases h
    · split at h
      · next hsingle => exact ⟨hsingle, by simpa using hfeed⟩
      · cases h

theorem allowsLiteral_of_eq (h : ScalarStyle.of s = literal) : allowsLiteral s = true := by
  rw [ScalarStyle.of] at h
  split at h
  · split at h
    · assumption
    · cases h
  · split at h
    · cases h
    · split at h <;> cases h

end ScalarStyle

/-- The token of a scalar that is written in its style. -/
def scalarToken (s : List Char) : Token :=
  .scalar (ScalarStyle.of s = .plain) s

/-- The quote that opens a scalar. -/
def quote (double : Bool) : Char := if double then '"' else '\''

namespace Scan

/-- What might have been a key is given up where it need not be one. -/
theorem dropKey?_eq {s : Scan} (h : ∀ k, s.possibleKey = some k → k.required = false) :
    s.dropKey? = some { s with possibleKey := none } := by
  rw [dropKey?, if_neg]
  cases hkey : s.possibleKey with
  | none => simp
  | some k => simp [h k hkey]

/-- Where a key may begin it is remembered. -/
theorem saveKey?_of_allowed {s : Scan} (h : ∀ k, s.possibleKey = some k → k.required = false)
    (hallowed : s.keyAllowed = true) (hflow : s.outerKeys = []) :
    s.saveKey? = some { s with
      possibleKey := some ⟨s.tokens.length, s.cursor,
        s.columns.head? = some s.cursor.column⟩ } := by
  rw [saveKey?, if_pos hallowed, dropKey?_eq h]
  simp [inFlow, hflow]

/-- A scalar that stands further right than its collection may be a key, but need not. -/
theorem saveKey?_value {s : Scan} (hkey : IsSpent s.possibleKey s.cursor.line)
    (hflow : s.outerKeys = []) (hcolumn : s.columns.head? ≠ some s.cursor.column) :
    ∃ key, s.saveKey? = some { s with possibleKey := key } ∧ IsSpent key (s.cursor.line + 1) := by
  by_cases hallowed : s.keyAllowed = true
  · refine ⟨_, saveKey?_of_allowed (fun k hk => (hkey k hk).1) hallowed hflow, ?_⟩
    rintro k ⟨⟩
    exact ⟨by simpa using hcolumn, Nat.lt_succ_self _⟩
  · refine ⟨s.possibleKey, by rw [saveKey?, if_neg hallowed], fun k hk => ?_⟩
    exact ⟨(hkey k hk).1, Nat.lt_succ_of_lt (hkey k hk).2⟩

variable {s : Scan} {c : Char} {rest : List Char}

/-- A plain scalar is read where no other token begins. -/
theorem token?_plain (hflow : s.outerKeys = []) (hmark : s.cursor.atDocumentMark = false)
    (hgap : isGap c = false) (hc : isLeadingMark c = false)
    (hrest : c = '?' ∨ c = ':' ∨ c = '-' → atGap rest = false) :
    s.token? c rest = s.plain? := by
  rw [Cursor.atDocumentMark, Bool.or_eq_false_iff] at hmark
  have hindicator : c ≠ '-' → c ≠ '?' → c ≠ ':' → isIndicator c = false := by
    intro hdash hquestion hcolon
    simp only [isLeadingMark, decide_eq_false_iff_not] at hc
    simp only [isIndicator, decide_eq_false_iff_not]
    simp_all
  have hbegins : beginsPlain false c rest = true := by
    by_cases hmarked : c = '?' ∨ c = ':' ∨ c = '-'
    · have hatGap := hrest hmarked
      have hspace : rest.head?.any isSpace = false := by
        cases rest with
        | nil => rfl
        | cons d rest => exact (Bool.or_eq_false_iff.1 hatGap).1
      rcases hmarked with rfl | rfl | rfl <;> simp [beginsPlain, hatGap, hspace]
    · rw [not_or, not_or] at hmarked
      simp [beginsPlain, hgap, hindicator hmarked.2.2 hmarked.1 hmarked.2.1]
  have hfree {m : Char} (hm : m = '?' ∨ m = ':' ∨ m = '-') : ¬(c = m ∧ atGap rest = true) := by
    rintro ⟨rfl, h⟩
    exact Bool.false_ne_true ((hrest hm).symm.trans h)
  simp only [isLeadingMark, decide_eq_false_iff_not, List.mem_cons, not_or] at hc
  simp [token?, hmark, inFlow, hflow, hc, hbegins, hfree]

theorem token?_quote {double : Bool} (hflow : s.outerKeys = [])
    (h : s.cursor.rest = quote double :: rest) :
    s.token? (quote double) rest = s.quoted? double := by
  have hmark :=
    Cursor.atDocumentMark_of_head h (by cases double <;> decide) (by cases double <;> decide)
  rw [Cursor.atDocumentMark, Bool.or_eq_false_iff] at hmark
  cases double <;> simp [token?, hmark, inFlow, hflow, quote]

theorem token?_literal (hflow : s.outerKeys = []) (h : s.cursor.rest = '|' :: rest) :
    s.token? '|' rest = s.block? false := by
  have hmark := Cursor.atDocumentMark_of_head h (by decide) (by decide)
  rw [Cursor.atDocumentMark, Bool.or_eq_false_iff] at hmark
  simp [token?, hmark, inFlow, hflow]

end Scan

theorem IsSpent.mono {key : Option PossibleKey} {l l' : Nat} (h : IsSpent key l) (hl : l ≤ l') :
    IsSpent key l' :=
  fun k hk => ⟨(h k hk).1, Nat.lt_of_lt_of_le (h k hk).2 hl⟩

namespace Place

/-- A token is read where it begins, and no collection ends before it. -/
theorem yields_of_token {c : Char} {rest : List Char} {column : Nat} {columns : List Nat}
    {allowed : Bool} {tokens : List Token} {q : Place} (hc : isGap c = false ∧ c ≠ '#')
    (hcolumns : ∀ k, columns.head? = some k → k ≤ column)
    (h : ∀ before line index key, IsSpent key line → ∃ t line' index' key', IsSpent key' line' ∧
      ((mk (c :: rest) column columns allowed).scan line index before key).token? c rest = some t ∧
      t.cursor.rest.length ≤ rest.length ∧
        t.LeadsTo (q.scan line' index' (before ++ tokens) key')) :
    (mk (c :: rest) column columns allowed).Yields tokens q := by
  intro before line index key hkey
  obtain ⟨t, line', index', key', hkey', htoken, hlength, hleads⟩ := h before line index key hkey
  refine ⟨line', index', key', hkey', (Scan.leadsTo_of_token? rfl ?_ ?_ hlength).trans hleads⟩
  · rintro d ⟨⟩
    exact hc
  · rw [Scan.close_eq_self hcolumns, htoken]

section Lines

variable {s rest text : List Char} {column parent k : Nat}

theorem head_le (hk : parent < k) (columns : List Nat) :
    ∀ j, (parent :: columns).head? = some j → j ≤ k :=
  fun _ h => Option.some.inj h ▸ Nat.le_of_lt hk

/-- A scalar that stands further right than its collection may turn out to be a key, but need
not. -/
theorem saveKey?_scan (hk : parent < k) (source : List Char) (columns : List Nat) (allowed : Bool)
    {line : Nat} {key : Option PossibleKey} (hkey : IsSpent key line) (index : Nat)
    (before : List Token) :
    ∃ key', ((mk source k (parent :: columns) allowed).scan line index before key).saveKey? =
      some ((mk source k (parent :: columns) allowed).scan line index before key') ∧
        IsSpent key' (line + 1) :=
  Scan.saveKey?_value (s :=
    (mk source k (parent :: columns) allowed).scan line index before key) hkey rfl
    fun h => Nat.ne_of_lt hk (Option.some.inj h)

/-- A plain scalar is read with its line. -/
theorem yields_plainLine (h : allowsPlain s = true) (hne : s ≠ [])
    (hmargin : Margin column rest text) (hcolumn : column ≤ parent) (hk : parent < k)
    (columns : List Nat) (allowed : Bool) :
    (mk (s ++ '\n' :: text) k (parent :: columns) allowed).Yields [.scalar true s]
      ⟨rest, column, parent :: columns, true⟩ := by
  have hplain := isPlain_of_allowsPlain h hne
  obtain ⟨c, s, rfl⟩ := List.exists_cons_of_ne_nil hne
  obtain ⟨hc, hfirst⟩ := beginsPlain_of_allowsPlain h ('\n' :: text)
  have hbegins := hplain.begins c rfl
  rw [List.cons_append]
  refine yields_of_token hbegins (head_le hk columns) fun before line index key hkey => ?_
  have hmark := Cursor.atDocumentMark_of_column (c := ⟨c :: s ++ '\n' :: text, line, k, index⟩)
    (Nat.ne_zero_of_lt hk)
  have hread := plain?_value hplain hmargin (Nat.lt_succ_of_le hcolumn)
    (Nat.succ_le_succ (Nat.le_of_lt hk)) hmark
  obtain ⟨key', hsave, hkey'⟩ :=
    saveKey?_scan hk (c :: (s ++ '\n' :: text)) columns allowed hkey index before
  rw [List.cons_append] at hmark hread
  refine ⟨_, line + 1, index + (c :: s).length + 1 + column, key', hkey', ?_, ?_,
    Scan.LeadsTo.refl _⟩
  · rw [Scan.token?_plain rfl hmark hbegins.1 hc hfirst, Scan.plain?, hsave]
    simp [scan, Scan.inFlow, Scan.push, hread]
  · simp [scan, hmargin.text_eq]
    omega

/-- A quoted scalar is read, and its line ends. -/
theorem yields_quotedLine (double : Bool) {more : List Char}
    (hread : ∀ c : Cursor, c.rest = quote double :: (more ++ '\n' :: text) →
      Yaml.quoted? double c = some ⟨s, c.past (quote double :: more), false⟩)
    (hmargin : Margin column rest text) (hk : parent < k) (columns : List Nat) (allowed : Bool) :
    (mk (quote double :: (more ++ '\n' :: text)) k (parent :: columns) allowed).Yields
      [.scalar false s]
      ⟨rest, column, parent :: columns, true⟩ := by
  have hquote : isGap (quote double) = false ∧ quote double ≠ '#' := by cases double <;> decide
  refine yields_of_token hquote (head_le hk columns) fun before line index key hkey => ?_
  obtain ⟨key', hsave, hkey'⟩ :=
    saveKey?_scan hk (quote double :: (more ++ '\n' :: text)) columns allowed hkey index before
  have hfound := hread ⟨quote double :: (more ++ '\n' :: text), line, k, index⟩ rfl
  have hrest := Cursor.rest_past (c := ⟨quote double :: (more ++ '\n' :: text), line, k, index⟩)
    (List.cons_append).symm
  have hline := Cursor.line_le_line_past ⟨quote double :: (more ++ '\n' :: text), line, k, index⟩
    (quote double :: more)
  generalize (Cursor.mk (quote double :: (more ++ '\n' :: text)) line k index).past
    (quote double :: more) = d
    at hfound hrest hline
  obtain ⟨rest', l', k', i'⟩ := d
  obtain rfl : rest' = '\n' :: text := hrest
  obtain ⟨i'', hleads⟩ := Scan.leadsTo_margin
    ((mk ('\n' :: text) k' (parent :: columns) false).scan l' i' (before ++ [.scalar false s]) key')
      hmargin rfl rfl
  refine ⟨_, l' + 1, i'', key', hkey'.mono (Nat.succ_le_succ hline), ?_, ?_, hleads⟩
  · rw [Scan.token?_quote rfl rfl, Scan.quoted?, hsave]
    simp [scan, Scan.push, hfound]
  · simp [scan]

/-- A block of lines is read as a whole. -/
theorem yields_literalLines (h : allowsLiteral s = true) (hmargin : Margin column rest text)
    (hcolumn : column ≤ parent) (hk : parent < k) (columns : List Nat) (allowed : Bool) :
    (mk (literalHeader s ++ '\n' :: (literalLines (parent + 2) s ++ text)) k
      (parent :: columns) allowed).Yields
      [.scalar false s] ⟨rest, column, parent :: columns, true⟩ := by
  obtain ⟨more, hmore⟩ : ∃ more, literalHeader s = '|' :: more := ⟨_, literalHeader_eq s⟩
  have hsource : literalHeader s ++ '\n' :: (literalLines (parent + 2) s ++ text) =
      '|' :: (more ++ '\n' :: (literalLines (parent + 2) s ++ text)) := by
    rw [hmore, List.cons_append]
  rw [hsource]
  refine yields_of_token (by decide) (head_le hk columns) fun before line index key hkey => ?_
  obtain ⟨l', i', hread, hl⟩ := block?_literal h hmargin hcolumn line k index
  rw [hsource] at hread
  refine ⟨_, l', i', none, nofun, ?_, ?_, Scan.LeadsTo.refl _⟩
  · rw [Scan.token?_literal rfl rfl, Scan.block?, Scan.dropKey?_eq fun j hj => (hkey j hj).1]
    simp [scan, Scan.push, hread]
  · simp [scan, hmargin.text_eq]
    omega

/-- Whatever its style is, a scalar is read with the lines that are written for it. -/
theorem yields_scalarLine (s : List Char) (hmargin : Margin column rest text)
    (hcolumn : column ≤ parent) (hk : parent < k) (columns : List Nat) (allowed : Bool) :
    (mk (scalarLine (parent + 2) s ++ text) k (parent :: columns) allowed).Yields [scalarToken s]
      ⟨rest, column, parent :: columns, true⟩ := by
  rw [scalarLine, scalarToken]
  cases hstyle : ScalarStyle.of s with
  | plain =>
    obtain ⟨hplain, hclear⟩ := ScalarStyle.allowsPlain_of_eq hstyle
    have hne : s ≠ [] := by
      rintro rfl
      exact absurd hclear (by decide)
    simpa using yields_plainLine hplain hne hmargin hcolumn hk columns allowed
  | single =>
    obtain ⟨hsingle, hfeed⟩ := ScalarStyle.allowsSingle_of_eq hstyle
    have hs := isSingle_of_allowsSingle hsingle hfeed
    have hread (c : Cursor) (hc : c.rest = singleText (parent + 2) s ++ '\n' :: text) :
        Yaml.quoted? false c = some ⟨s, c.past (singleText (parent + 2) s), false⟩ :=
      quoted?_singleText hs (fun _ => Nat.succ_ne_zero _) (by simp) hc
    simpa [singleText, quote] using yields_quotedLine false hread hmargin hk columns allowed
  | double =>
    have hread (c : Cursor) (hc : c.rest = doubleText s ++ '\n' :: text) :
        Yaml.quoted? true c = some ⟨s, c.past (doubleText s), false⟩ := quoted?_doubleText hc
    simpa [doubleText, quote] using yields_quotedLine true hread hmargin hk columns allowed
  | literal =>
    simpa using yields_literalLines (ScalarStyle.allowsLiteral_of_eq hstyle) hmargin hcolumn hk
      columns allowed

/-- A scan that has read an opening bracket. -/
def scanInBrackets (rest : List Char) (column : Nat) (columns : List Nat) (line index : Nat)
    (tokens : List Token) (key : Option PossibleKey) : Scan where
  cursor := ⟨rest, line, column, index⟩
  tokens := tokens
  columns := columns
  outerKeys := [key]

/-- Brackets with nothing between them are read, and their line ends. -/
theorem yields_bracketLine {a b : Char} {ta tb : Token} (hbegins : isGap a = false ∧ a ≠ '#')
    (hends : isGap b = false ∧ b ≠ '#')
    (ha : ∀ {s : Scan} {rest : List Char}, s.cursor.rest = a :: rest →
      s.token? a rest = s.openFlow? ta)
    (hb : ∀ {s : Scan} {rest : List Char}, s.cursor.rest = b :: rest →
      s.token? b rest = s.closeFlow? tb)
    (hmargin : Margin column rest text) (hk : parent < k) (columns : List Nat) (allowed : Bool) :
    (mk (a :: b :: '\n' :: text) k (parent :: columns) allowed).Yields [ta, tb] ⟨rest, column,
      parent :: columns, true⟩ := by
  refine yields_of_token hbegins (head_le hk columns) fun before line index key hkey => ?_
  obtain ⟨key', hsave, hkey'⟩ :=
    saveKey?_scan hk (a :: b :: '\n' :: text) columns allowed hkey index before
  have hskip : (Cursor.mk (a :: b :: '\n' :: text) line k index).skip =
      ⟨b :: '\n' :: text, line, k + 1, index + 1⟩ :=
    Cursor.skip_char (isBreak_of_not_isGap hbegins.1) _ _ _ _
  have hskip' : (Cursor.mk (b :: '\n' :: text) line (k + 1) (index + 1)).skip =
      ⟨'\n' :: text, line, k + 2, index + 2⟩ :=
    Cursor.skip_char (isBreak_of_not_isGap hends.1) _ _ _ _
  obtain ⟨index', hmargin'⟩ := Scan.leadsTo_margin
    ((mk ('\n' :: text) (k + 2) (parent :: columns) false).scan line (index + 2)
      (before ++ [ta, tb]) key') hmargin rfl rfl
  have hclose :
      (scanInBrackets (b :: '\n' :: text) (k + 1) (parent :: columns) line (index + 1)
        (before ++ [ta]) key').LeadsTo
      ((mk ('\n' :: text) (k + 2) (parent :: columns) false).scan line (index + 2)
        (before ++ [ta, tb]) key') := by
    refine Scan.leadsTo_of_token? (rfl : _ = b :: '\n' :: text) ?_ ?_ (by simp [scan])
    · rintro d ⟨⟩
      exact hends
    · have hflow :
          (scanInBrackets (b :: '\n' :: text) (k + 1) (parent :: columns) line (index + 1)
            (before ++ [ta])
          key').inFlow = true := rfl
      rw [Scan.close, if_pos hflow, hb rfl, Scan.closeFlow?]
      simp [scanInBrackets, scan, Scan.dropKey?, Scan.push, Scan.skip, Cursor.past, hskip']
  refine ⟨_, line + 1, index', key', hkey', ?_, ?_, hclose.trans hmargin'⟩
  · rw [ha rfl, Scan.openFlow?, hsave]
    simp [scanInBrackets, scan, Scan.push, Scan.skip, Cursor.past, hskip]
  · simp [scanInBrackets]

theorem yields_emptyList (hmargin : Margin column rest text) (hk : parent < k) (columns : List Nat)
    (allowed : Bool) :
    (mk ('[' :: ']' :: '\n' :: text) k (parent :: columns) allowed).Yields [.flowSequenceStart,
      .flowSequenceEnd]
      ⟨rest, column, parent :: columns, true⟩ := by
  refine yields_bracketLine (by decide) (by decide) (fun h => ?_)
    (fun h => ?_) hmargin hk columns allowed <;>
    simp [Scan.token?, Cursor.startsWithMark, Cursor.beginMark, Cursor.endMark, h]

theorem yields_emptyMapping (hmargin : Margin column rest text) (hk : parent < k)
    (columns : List Nat) (allowed : Bool) :
    (mk ('\x7b' :: '\x7d' :: '\n' :: text) k (parent :: columns) allowed).Yields
      [.flowMappingStart, .flowMappingEnd] ⟨rest, column, parent :: columns, true⟩ := by
  refine yields_bracketLine (by decide) (by decide) (fun h => ?_)
    (fun h => ?_) hmargin hk columns allowed <;>
    simp [Scan.token?, Cursor.startsWithMark, Cursor.beginMark, Cursor.endMark, h]

end Lines

end Place

end ConventionalRelease.Yaml
