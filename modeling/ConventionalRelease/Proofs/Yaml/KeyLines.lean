import ConventionalRelease.Proofs.Yaml.ScalarLines

/-!
# Keys and entries

A key that stands before its colon is found to be one when the colon is read
(`Place.yields_simpleKey`), another key follows a question mark (`Place.yields_keyMark`), and an
entry a dash (`Place.yields_entryMark`). The first of them opens the collection (`Opening`).
-/

namespace ConventionalRelease.Yaml

/-! ## Keys before their colons -/

theorem isSimpleKey_iff (key : String) : isSimpleKey key = true ↔
    (∀ c ∈ key.toList, isBreak c = false ∧ c ≠ '\r' ∧ c ≠ '\u0085') ∧
      String.utf8Len key.toList ≤ longestSimpleKey := by
  rw [isSimpleKey, String.utf8Len_toList]
  simp [and_assoc]

theorem length_le_utf8Len (s : List Char) : s.length ≤ String.utf8Len s := by
  induction s with
  | nil => exact Nat.zero_le _
  | cons c s ih =>
    have hpos := c.utf8Size_pos
    rw [String.utf8Len_cons, List.length_cons]
    omega

theorem length_keyText_le (s : List Char) : (keyText s).length ≤ 6 * String.utf8Len s + 2 := by
  have hlength := length_le_utf8Len s
  rw [keyText]
  split
  · omega
  · have hsingle := length_singleText_le s
    omega
  · exact length_doubleText_le s
  · exact length_doubleText_le s

/-- A key without breaks is written without breaks. -/
theorem isBreak_of_mem_keyText {s : List Char} (h : ∀ c ∈ s, isBreak c = false) {c : Char}
    (hc : c ∈ keyText s) :
    isBreak c = false := by
  rw [keyText] at hc
  split at hc
  · exact h c hc
  · rcases mem_singleText hc with rfl | rfl | hc
    · rfl
    · rfl
    · exact h c hc
  · exact (mem_doubleText hc).2
  · exact (mem_doubleText hc).2

namespace Scan

variable {s : Scan} {rest : List Char}

/-- The mark of a value makes what stands before it a key. -/
theorem value?_of_reaches {k : PossibleKey} (hkey : s.possibleKey = some k)
    (h : k.reaches s.cursor = true) :
    s.value? = some {
      (((s.pushAt k.place .key).openBlock k.start.column k.place .mappingStart).push
        .value).skip 1 with
      possibleKey := none, keyAllowed := false } := by
  rw [value?, hkey, Option.filter_some, h]
  rfl

/-- The mark of a value opens a mapping of its own where nothing before it is a key. -/
theorem value?_of_spent (hkey : s.possibleKey.filter (·.reaches s.cursor) = none) {t : Scan}
    (hdrop : s.dropKey? = some t) (hflow : t.outerKeys = []) (hallowed : t.keyAllowed = true) :
    s.value? = some {
      ((t.openBlock t.cursor.column t.tokens.length .mappingStart).push .value).skip 1 with
      keyAllowed := !(t.openBlock t.cursor.column t.tokens.length .mappingStart).inFlow } := by
  rw [value?, hkey]
  simp [hdrop, inFlow, hflow, hallowed]

theorem token?_value (hflow : s.outerKeys = []) (h : s.cursor.rest = ':' :: rest)
    (hgap : atGap rest = true) :
    s.token? ':' rest = s.value? := by
  have hmark := Cursor.atDocumentMark_of_head h (by decide) (by decide)
  rw [Cursor.atDocumentMark, Bool.or_eq_false_iff] at hmark
  simp [token?, hmark, inFlow, hflow, hgap]

theorem token?_entry (h : s.cursor.rest = '-' :: ' ' :: rest) :
    s.token? '-' (' ' :: rest) = s.entry? := by
  simp [token?, Cursor.startsWithMark, Cursor.beginMark, Cursor.endMark, h, atGap, isGap, isSpace]

theorem token?_key (hflow : s.outerKeys = []) (h : s.cursor.rest = '?' :: ' ' :: rest) :
    s.token? '?' (' ' :: rest) = s.key? := by
  simp [token?, Cursor.startsWithMark, Cursor.beginMark, Cursor.endMark, h, inFlow, hflow, atGap,
    isGap, isSpace]

end Scan

/-- The first key or entry of a block collection opens it: it stands further right than the
collections around it. -/
inductive Opening (column : Nat) (t : Token) :
    (columns outer : List Nat) → (front : List Token) → Prop where
  | opens {columns : List Nat} (h : ∀ k, columns.head? = some k → k < column) :
      Opening column t columns columns [t]
  | opened (outer : List Nat) : Opening column t (column :: outer) outer []

theorem Opening.head_le {column : Nat} {t : Token} {columns outer : List Nat} {front : List Token}
    (h : Opening column t columns outer front) : ∀ k, columns.head? = some k → k ≤ column := by
  cases h with
  | opens h => exact fun k hk => Nat.le_of_lt (h k hk)
  | opened outer => exact fun k hk => Nat.le_of_eq (Option.some.inj hk).symm

theorem Opening.openBlock_eq {column : Nat} {t : Token} {outer : List Nat}
    {front : List Token} {s : Scan} (h : Opening column t s.columns outer front)
    (hflow : s.outerKeys = []) (before after : List Token) (htokens : s.tokens = before ++ after) :
    s.openBlock column before.length t =
      { s with tokens := before ++ (front ++ after), columns := column :: outer } := by
  obtain ⟨cursor, tokens, columns, key, outerKeys, allowed⟩ := s
  subst hflow htokens
  cases h with
  | opens h =>
    have hopens : (columns.head?.any (column ≤ ·)) = false := by
      cases columns with
      | nil => rfl
      | cons k columns => simpa using h k rfl
    simp [Scan.openBlock, Scan.inFlow, hopens, Scan.pushAt]
  | opened outer => simp [Scan.openBlock, Scan.inFlow]

namespace Place

section Key

variable {s written src : List Char} {column line : Nat} {columns : List Nat}
  {key : Option PossibleKey}

/-- A scan that has read a scalar up to a colon: the scalar may turn out to be a key. -/
def scanAfterKey (written src : List Char) (column : Nat) (columns : List Nat) (line index : Nat)
    (before : List Token) (t : Token) : Scan where
  cursor := ⟨':' :: src, line, column + written.length, index + written.length⟩
  tokens := before ++ [t]
  columns := columns
  possibleKey :=
    some ⟨before.length, ⟨written ++ ':' :: src, line, column, index⟩, columns.head? = some column⟩
  keyAllowed := false

theorem saveKey?_key (written src : List Char) (column : Nat) (columns : List Nat)
    (hkey : IsSpent key line) (index : Nat) (before : List Token) :
    ((mk (written ++ ':' :: src) column columns true).scan line index before key).saveKey? =
      some ((mk (written ++ ':' :: src) column columns true).scan line index before
        (some ⟨before.length, ⟨written ++ ':' :: src, line, column, index⟩,
          columns.head? = some column⟩)) :=
  Scan.saveKey?_of_allowed (s :=
    (mk (written ++ ':' :: src) column columns true).scan line index before key)
    (fun k hk => (hkey k hk).1) rfl rfl

theorem leadsTo_plainKey (h : allowsPlain s = true) (hne : s ≠ []) (hgap : atGap src = true)
    (hcolumns : ∀ k, columns.head? = some k → k ≤ column) (hkey : IsSpent key line) (index : Nat)
    (before : List Token) :
    ((mk (s ++ ':' :: src) column columns true).scan line index before key).LeadsTo
      (scanAfterKey s src column columns line index before (.scalar true s)) := by
  have hplain := isPlain_of_allowsPlain h hne
  have hmark := atDocumentMark_of_allowsPlain h
    (by decide : ':' ≠ '-' ∧ ':' ≠ '.') src line column index
  have hindent : (columns.head?.map (· + 1)).getD 0 ≤ column + 1 := by
    cases columns with
    | nil => exact Nat.zero_le _
    | cons k columns => exact Nat.succ_le_succ (hcolumns k rfl)
  have hread := plain?_key hplain hgap hindent hmark
  have hsave := saveKey?_key s src column columns hkey index before
  obtain ⟨c, s, rfl⟩ := List.exists_cons_of_ne_nil hne
  obtain ⟨hc, hfirst⟩ := beginsPlain_of_allowsPlain h (':' :: src)
  have hbegins := hplain.begins c rfl
  rw [List.cons_append] at hmark hread hsave ⊢
  refine Scan.leadsTo_of_token? rfl ?_ ?_ ?_
  · rintro d ⟨⟩
    exact hbegins
  · rw [Scan.close_eq_self hcolumns, Scan.token?_plain rfl hmark hbegins.1 hc hfirst,
      Scan.plain?, hsave]
    simp [scan, scanAfterKey, Scan.inFlow, Scan.push, hread]
  · simp [scanAfterKey]

theorem leadsTo_quotedKey (double : Bool) {more : List Char}
    (hbreaks : ∀ c ∈ quote double :: more, isBreak c = false)
    (hread : ∀ c : Cursor, c.rest = (quote double :: more) ++ ':' :: src →
      Yaml.quoted? double c = some ⟨s, c.past (quote double :: more), false⟩)
    (hcolumns : ∀ k, columns.head? = some k → k ≤ column) (hkey : IsSpent key line) (index : Nat)
    (before : List Token) :
    ((mk ((quote double :: more) ++ ':' :: src) column columns true).scan line index before
      key).LeadsTo
      (scanAfterKey (quote double :: more) src column columns line index before
        (.scalar false s)) := by
  have hfound := hread ⟨(quote double :: more) ++ ':' :: src, line, column, index⟩ rfl
  rw [Cursor.past_line hbreaks] at hfound
  have hsave := saveKey?_key (quote double :: more) src column columns hkey index before
  have hquote : isGap (quote double) = false ∧ quote double ≠ '#' := by cases double <;> decide
  rw [List.cons_append] at hsave hfound ⊢
  refine Scan.leadsTo_of_token? rfl ?_ ?_ ?_
  · rintro d ⟨⟩
    exact hquote
  · rw [Scan.close_eq_self hcolumns, Scan.token?_quote rfl rfl, Scan.quoted?, hsave]
    simp [scan, scanAfterKey, Scan.push, hfound]
  · simp [scanAfterKey]

/-- A key is read up to its colon, and remembered as what may be a key. -/
theorem leadsTo_keyText (hbreaks : ∀ c ∈ s, isBreak c = false) (hgap : atGap src = true)
    (hcolumns : ∀ k, columns.head? = some k → k ≤ column) (hkey : IsSpent key line) (index : Nat)
    (before : List Token) :
    ((mk (keyText s ++ ':' :: src) column columns true).scan line index before key).LeadsTo
      (scanAfterKey (keyText s) src column columns line index before (scalarToken s)) := by
  have hwritten := fun c (hc : c ∈ keyText s) => isBreak_of_mem_keyText hbreaks hc
  have hcolon : (':' :: src).head? ≠ some '\'' := by simp
  rw [scalarToken]
  rw [keyText] at hwritten ⊢
  cases hstyle : ScalarStyle.of s with
  | plain =>
    obtain ⟨hplain, hclear⟩ := ScalarStyle.allowsPlain_of_eq hstyle
    have hne : s ≠ [] := by
      rintro rfl
      exact absurd hclear (by decide)
    exact leadsTo_plainKey hplain hne hgap hcolumns hkey index before
  | single =>
    obtain ⟨hsingle, hfeed⟩ := ScalarStyle.allowsSingle_of_eq hstyle
    have hs := isSingle_of_allowsSingle hsingle hfeed
    rw [hstyle] at hwritten
    have hnone : (∃ b ∈ s, isBreak b = true) → 0 ≠ 0 := by
      rintro ⟨b, hb, h⟩
      exact absurd h (Bool.eq_false_iff.1 (hbreaks b hb))
    exact leadsTo_quotedKey false hwritten (fun c hc => quoted?_singleText hs hnone hcolon hc)
      hcolumns hkey index before
  | double =>
    rw [hstyle] at hwritten
    exact leadsTo_quotedKey true hwritten (fun c hc => quoted?_doubleText hc) hcolumns hkey
      index before
  | literal =>
    rw [hstyle] at hwritten
    exact leadsTo_quotedKey true hwritten (fun c hc => quoted?_doubleText hc) hcolumns hkey
      index before

end Key

variable {src : List Char} {column : Nat} {columns outer : List Nat} {front : List Token}

/-- The colon makes the scalar before it a key, which opens a mapping where none is open. -/
theorem leadsTo_value {written : List Char} (hlength : written.length ≤ longestKey)
    (hgap : atGap src = true) (hopen : Opening column .mappingStart columns outer front)
    (line index : Nat) (before : List Token) (t : Token) :
    (scanAfterKey written src column columns line index before t).LeadsTo
      ((mk src (column + written.length + 1) (column :: outer) false).scan line
        (index + written.length + 1) (before ++ (front ++ [.key, t, .value])) none) := by
  have hclose : (scanAfterKey written src column columns line index before t).close
      (column + written.length) =
      scanAfterKey written src column columns line index before t :=
    Scan.close_eq_self fun k hk => (hopen.head_le k hk).trans (Nat.le_add_right _ _)
  have hreaches : PossibleKey.reaches
      ⟨before.length, ⟨written ++ ':' :: src, line, column, index⟩, columns.head? = some column⟩
      (scanAfterKey written src column columns line index before t).cursor = true := by
    simpa [PossibleKey.reaches, scanAfterKey] using hlength
  have hpush :
      ((scanAfterKey written src column columns line index before t).pushAt before.length
        .key).openBlock column
      before.length .mappingStart =
        { scanAfterKey written src column columns line index before t with
          tokens := before ++ (front ++ [.key, t]), columns := column :: outer } := by
    exact hopen.openBlock_eq (s :=
      (scanAfterKey written src column columns line index before t).pushAt before.length .key)
      rfl before [.key, t] (by simp [Scan.pushAt, scanAfterKey])
  refine Scan.leadsTo_of_token? rfl ?_ ?_ ?_
  · rintro d ⟨⟩
    decide
  · refine (congrArg (Scan.token? · ':' src) hclose).trans ?_
    rw [Scan.token?_value rfl rfl hgap, Scan.value?_of_reaches rfl hreaches, hpush]
    simp [scan, scanAfterKey, Scan.push, Scan.skip, Cursor.past, Cursor.skip, isBreak,
      Nat.add_assoc]
  · simp [scan]

/-- A key before its colon is read with the colon. -/
theorem yields_simpleKey {key : String} (h : isSimpleKey key = true) (hgap : atGap src = true)
    (hopen : Opening column .mappingStart columns outer front) :
    (mk (keyText key.toList ++ ':' :: src) column columns true).Yields
      (front ++ [.key, scalarToken key.toList, .value])
      ⟨src, column + (keyText key.toList).length + 1, column :: outer, false⟩ := by
  intro before line index possible hspent
  obtain ⟨hbreaks, hsize⟩ := (isSimpleKey_iff key).1 h
  have hlength : (keyText key.toList).length ≤ longestKey := by
    refine (length_keyText_le key.toList).trans ?_
    rw [longestSimpleKey] at hsize
    rw [longestKey]
    omega
  have hkey := leadsTo_keyText (fun c hc => (hbreaks c hc).1) hgap hopen.head_le hspent index before
  exact ⟨line, _, none, nofun, hkey.trans (leadsTo_value hlength hgap hopen line index before _)⟩

section Marks

variable {line : Nat} {key : Option PossibleKey}

theorem openBlock_scan {t : Token} (hopen : Opening column t columns outer front)
    (source : List Char) (line index : Nat) (before : List Token) (key : Option PossibleKey) :
    ((mk source column columns true).scan line index before key).openBlock column before.length t =
      (mk source column (column :: outer) true).scan line index (before ++ front) key := by
  have hpush := hopen.openBlock_eq (s := (mk source column columns true).scan line index before key)
    rfl before []
    (List.append_nil _).symm
  simpa [scan] using hpush

theorem dropKey?_scan (p : Place) (hkey : IsSpent key line) (index : Nat) (before : List Token) :
    (p.scan line index before key).dropKey? = some (p.scan line index before none) :=
  Scan.dropKey?_eq fun k hk => (hkey k hk).1

/-- The mark of an entry opens a sequence where none is open. -/
theorem yields_entryMark (hopen : Opening column .sequenceStart columns outer front) :
    (mk ('-' :: ' ' :: src) column columns true).Yields (front ++ [.entry]) ⟨src, column + 2,
      column :: outer, true⟩ := by
  have hmark : (mk ('-' :: ' ' :: src) column columns true).Yields (front ++ [.entry])
      ⟨' ' :: src, column + 1, column :: outer, true⟩ := by
    refine yields_of_token (by decide) hopen.head_le fun before line index key hkey => ?_
    refine ⟨_, line, index + 1, none, nofun, ?_, ?_, Scan.LeadsTo.refl _⟩
    · rw [Scan.token?_entry rfl, Scan.entry?]
      change (if _ then _ else (Scan.dropKey? (Scan.openBlock _ column before.length _)).bind _) = _
      rw [openBlock_scan hopen, dropKey?_scan _ hkey]
      simp [scan, Scan.push, Scan.skip, Cursor.past, Cursor.skip, isBreak, Scan.inFlow]
    · simp [scan]
  simpa using hmark.trans (yields_space src (column + 1) (column :: outer) true)

/-- The mark of a key opens a mapping where none is open. -/
theorem yields_keyMark (hopen : Opening column .mappingStart columns outer front) :
    (mk ('?' :: ' ' :: src) column columns true).Yields (front ++ [.key]) ⟨src, column + 2,
      column :: outer, true⟩ := by
  have hmark : (mk ('?' :: ' ' :: src) column columns true).Yields (front ++ [.key])
      ⟨' ' :: src, column + 1, column :: outer, true⟩ := by
    refine yields_of_token (by decide) hopen.head_le fun before line index key hkey => ?_
    refine ⟨_, line, index + 1, none, nofun, ?_, ?_, Scan.LeadsTo.refl _⟩
    · rw [Scan.token?_key rfl rfl, Scan.key?]
      change (if _ then _ else (Scan.dropKey? (Scan.openBlock _ column before.length _)).bind _) = _
      rw [openBlock_scan hopen, dropKey?_scan _ hkey]
      simp [scan, Scan.push, Scan.skip, Cursor.past, Cursor.skip, isBreak, Scan.inFlow]
    · simp [scan]
  simpa using hmark.trans (yields_space src (column + 1) (column :: outer) true)

/-- The mark of a value after a key on an earlier line. -/
theorem yields_valueMark (src : List Char) (column : Nat) (outer : List Nat) :
    (mk (':' :: ' ' :: src) column (column :: outer) true).Yields [.value] ⟨src, column + 2,
      column :: outer, true⟩ := by
  have hopen : Opening column .mappingStart (column :: outer) outer [] := .opened outer
  have hmark : (mk (':' :: ' ' :: src) column (column :: outer) true).Yields [.value]
      ⟨' ' :: src, column + 1, column :: outer, true⟩ := by
    refine yields_of_token (by decide) hopen.head_le fun before line index key hkey => ?_
    have hspent : key.filter (·.reaches ⟨':' :: ' ' :: src, line, column, index⟩) = none := by
      rw [Option.filter_eq_none_iff]
      intro k hk
      simp [PossibleKey.reaches, Nat.ne_of_lt (hkey k hk).2]
    refine ⟨_, line, index + 1, none, nofun, ?_, ?_, Scan.LeadsTo.refl _⟩
    · rw [Scan.token?_value rfl rfl rfl,
        Scan.value?_of_spent hspent (dropKey?_scan _ hkey _ _) rfl rfl]
      have hopened := openBlock_scan hopen (':' :: ' ' :: src) line index before none
      rw [List.append_nil] at hopened
      simp [scan] at hopened ⊢
      simp [hopened, Scan.push, Scan.skip, Cursor.past, Cursor.skip, isBreak, Scan.inFlow]
    · simp [scan]
  simpa using hmark.trans (yields_space src (column + 1) (column :: outer) true)

end Marks

end Place

end ConventionalRelease.Yaml
