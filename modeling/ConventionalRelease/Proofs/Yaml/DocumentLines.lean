import ConventionalRelease.Proofs.Yaml.KeyLines

/-!
# Documents in lines

The lines of a document yield its tokens (`yields_nestedLines`, `yields_valueLines`): entry after
entry, field after field, each up to the margin of the next.
-/

namespace ConventionalRelease

/-- A document of texts and truth values, where the keys of a mapping are distinct. -/
inductive Document.IsTextual : Document → Prop where
  | bool (b : Bool) : IsTextual (.bool b)
  | text (s : String) : IsTextual (.text s)
  | list {items : List Document} (h : ∀ d ∈ items, IsTextual d) : IsTextual (.list items)
  | mapping {fields : List (String × Document)} (hnames : (fields.map (·.1)).Nodup)
      (h : ∀ f ∈ fields, IsTextual f.2) :
    IsTextual (.mapping fields)

namespace Yaml

/-! ## The tokens of a document -/

mutual

/-- The tokens of a document; as the value of a key a sequence has no tokens for its beginning and
its end. -/
def nodeTokens (inValue : Bool) : Document → List Token
  | .null => [.scalar true ['n', 'u', 'l', 'l']]
  | .bool b => [.scalar true (if b then "true" else "false").toList]
  | .int n => [.scalar true (toString n).toList]
  | .real numeral => [.scalar true numeral.toList]
  | .text s => [scalarToken s.toList]
  | .list [] => [.flowSequenceStart, .flowSequenceEnd]
  | .list (item :: items) =>
    if inValue then entryTokens (item :: items)
    else .sequenceStart :: entryTokens (item :: items) ++ [.blockEnd]
  | .mapping [] => [.flowMappingStart, .flowMappingEnd]
  | .mapping (field :: fields) => .mappingStart :: fieldTokens (field :: fields) ++ [.blockEnd]

/-- The tokens of the entries of a sequence. -/
def entryTokens : List Document → List Token
  | [] => []
  | item :: rest => .entry :: nodeTokens false item ++ entryTokens rest

/-- The tokens of the fields of a mapping. -/
def fieldTokens : List (String × Document) → List Token
  | [] => []
  | (key, value) :: rest =>
    .key :: scalarToken key.toList :: .value :: nodeTokens (isSimpleKey key) value ++
      fieldTokens rest

end

/-! ## Margins -/

theorem exists_keyText_eq (s : List Char) :
    ∃ c more, keyText s = c :: more ∧ isGap c = false ∧ c ≠ '#' := by
  rw [keyText]
  cases hstyle : ScalarStyle.of s with
  | plain =>
    obtain ⟨hplain, hclear⟩ := ScalarStyle.allowsPlain_of_eq hstyle
    have hne : s ≠ [] := by
      rintro rfl
      exact absurd hclear (by decide)
    obtain ⟨c, more, rfl⟩ := List.exists_cons_of_ne_nil hne
    exact ⟨c, more, rfl, (isPlain_of_allowsPlain hplain hne).begins c rfl⟩
  | single => exact ⟨'\'', _, rfl, by decide⟩
  | double => exact ⟨'"', _, rfl, by decide⟩
  | literal => exact ⟨'"', _, rfl, by decide⟩

section

variable {column : Nat}

theorem entryLines_cons (item : Document) (items : List Document) :
    entryLines column true (item :: items) =
    '-' :: ' ' :: (nestedLines (column + 2) item ++ entryLines column false items) := by
  simp [entryLines]

/-- An entry begins its line at the column of its sequence. -/
theorem margin_entryLines (column : Nat) (item : Document) (items : List Document)
    (text : List Char) :
    Margin column (entryLines column true (item :: items) ++ text)
      (entryLines column false (item :: items) ++ text) := by
  have hline : entryLines column false (item :: items) =
      spaces column ++ entryLines column true (item :: items) := by
    simp [entryLines]
  rw [hline, entryLines_cons, List.append_assoc]
  exact Margin.of_cons (by decide) column _

theorem fieldLines_of_isSimpleKey {key : String} (h : isSimpleKey key = true) (value : Document)
    (fields : List (String × Document)) : fieldLines column true ((key, value) :: fields) =
      keyText key.toList ++ ':' :: (valueLines column value ++ fieldLines column false fields) := by
  simp [fieldLines, h]

theorem fieldLines_of_not_isSimpleKey {key : String} (h : ¬isSimpleKey key = true)
    (value : Document) (fields : List (String × Document)) :
    fieldLines column true ((key, value) :: fields) =
      '?' :: ' ' :: (scalarLine (column + 2) key.toList ++
        (spaces column ++ ':' :: ' ' ::
          (nestedLines (column + 2) value ++ fieldLines column false fields))) := by
  simp [fieldLines, h]

/-- A field begins its line at the column of its mapping. -/
theorem margin_fieldLines (column : Nat) (field : String × Document)
    (fields : List (String × Document)) (text : List Char) :
    Margin column (fieldLines column true (field :: fields) ++ text)
      (fieldLines column false (field :: fields) ++ text) := by
  obtain ⟨key, value⟩ := field
  have hline : fieldLines column false ((key, value) :: fields) =
      spaces column ++ fieldLines column true ((key, value) :: fields) := by
    simp [fieldLines]
  rw [hline, List.append_assoc]
  by_cases hsimple : isSimpleKey key = true
  · obtain ⟨c, more, hkey, hc⟩ := exists_keyText_eq key.toList
    rw [fieldLines_of_isSimpleKey hsimple, hkey]
    exact Margin.of_cons hc column _
  · rw [fieldLines_of_not_isSimpleKey hsimple]
    exact Margin.of_cons (by decide) column _

end

/-! ## Lines and tokens -/

/-- What follows the colon of a key begins with a gap. -/
theorem atGap_valueLines (column : Nat) (d : Document) (text : List Char) :
    atGap (valueLines column d ++ text) = true := by
  rw [valueLines.eq_def]
  split <;> rfl

/-- The lines of a document yield its tokens, where it stands in an entry and where it is the value
of a key. -/
structure LinesYield (d : Document) : Prop where
  nested : ∀ {column parent : Nat} {rest text : List Char} (columns : List Nat),
  Margin column rest text → column ≤ parent →
    (Place.mk (nestedLines (parent + 2) d ++ text) (parent + 2) (parent :: columns) true).Yields
      (nodeTokens false d)
      ⟨rest, column, parent :: columns, true⟩
  value : ∀ {column parent k : Nat} {rest text : List Char} (columns : List Nat),
  Margin column rest text → column ≤ parent →
    parent < k → (Place.mk (valueLines parent d ++ text) k (parent :: columns) false).Yields
      (nodeTokens true d)
      ⟨rest, column, parent :: columns, true⟩

section

variable {column parent : Nat} {rest text : List Char} {columns outer : List Nat}
  {front : List Token}

theorem yields_entryLines {item : Document} {items : List Document}
    (h : ∀ d ∈ item :: items, LinesYield d)
    (hopen : Opening parent .sequenceStart columns outer front) (hmargin : Margin column rest text)
    (hcolumn : column ≤ parent) :
    (Place.mk (entryLines parent true (item :: items) ++ text) parent columns true).Yields
      (front ++ entryTokens (item :: items)) ⟨rest, column, parent :: outer, true⟩ := by
  induction items generalizing item columns front with
  | nil =>
    have hitem := (h item List.mem_cons_self).nested outer hmargin hcolumn
    rw [entryLines_cons, entryLines, List.append_nil, List.cons_append, List.cons_append,
      entryTokens, entryTokens, List.append_nil]
    simpa using (Place.yields_entryMark hopen).trans hitem
  | cons next items ih =>
    have hitem := (h item List.mem_cons_self).nested outer
      (margin_entryLines parent next items text) (Nat.le_refl parent)
    have hrest := ih (fun d hd => h d (List.mem_cons_of_mem item hd)) (.opened outer)
    rw [entryLines_cons, List.cons_append, List.cons_append, List.append_assoc, entryTokens]
    simpa using ((Place.yields_entryMark hopen).trans hitem).trans hrest

/-- A key and its value are read up to the margin of the next. -/
theorem yields_field (key : String) {value : Document} (h : LinesYield value)
    {fields : List (String × Document)} (hopen : Opening parent .mappingStart columns outer front)
    (hmargin : Margin column rest (fieldLines parent false fields ++ text))
    (hcolumn : column ≤ parent) :
    (Place.mk (fieldLines parent true ((key, value) :: fields) ++ text) parent columns true).Yields
      (front ++ fieldTokens [(key, value)]) ⟨rest, column, parent :: outer, true⟩ := by
  rw [fieldTokens, fieldTokens, List.append_nil]
  by_cases hsimple : isSimpleKey key = true
  · have hvalue :=
      h.value (k := parent + (keyText key.toList).length + 1) outer hmargin hcolumn (by omega)
    have hgap := atGap_valueLines parent value (fieldLines parent false fields ++ text)
    rw [fieldLines_of_isSimpleKey hsimple, hsimple]
    simpa using (Place.yields_simpleKey hsimple hgap hopen).trans hvalue
  · have hvalue := h.nested outer hmargin hcolumn
    have hkey := Place.yields_scalarLine key.toList (Margin.of_cons
      (by decide : isGap ':' = false ∧ ':' ≠ '#') parent
      (' ' :: (nestedLines (parent + 2) value ++ (fieldLines parent false fields ++ text))))
      (Nat.le_refl parent) (by omega : parent < parent + 2) outer true
    rw [fieldLines_of_not_isSimpleKey hsimple, Bool.eq_false_iff.2 hsimple]
    simpa using
      (((Place.yields_keyMark hopen).trans hkey).trans
        (Place.yields_valueMark _ parent outer)).trans hvalue

theorem yields_fieldLines {field : String × Document} {fields : List (String × Document)}
    (h : ∀ f ∈ field :: fields, LinesYield f.2)
    (hopen : Opening parent .mappingStart columns outer front) (hmargin : Margin column rest text)
    (hcolumn : column ≤ parent) :
    (Place.mk (fieldLines parent true (field :: fields) ++ text) parent columns true).Yields
      (front ++ fieldTokens (field :: fields)) ⟨rest, column, parent :: outer, true⟩ := by
  induction fields generalizing field columns front with
  | nil =>
    exact yields_field field.1 (h field List.mem_cons_self) hopen
      (by simpa [fieldLines] using hmargin) hcolumn
  | cons next fields ih =>
    obtain ⟨key, value⟩ := field
    have hfield := yields_field key (h (key, value) List.mem_cons_self) hopen
      (margin_fieldLines parent next fields text) (Nat.le_refl parent)
    have hrest := ih (fun f hf => h f (List.mem_cons_of_mem (key, value) hf)) (.opened outer)
    have htokens : fieldTokens ((key, value) :: next :: fields) =
        fieldTokens [(key, value)] ++ fieldTokens (next :: fields) := by
      simp [fieldTokens]
    rw [htokens]
    simpa using hfield.trans hrest

/-- A document that is written on a line yields its token there. -/
theorem LinesYield.of_line {d : Document} (line : Nat → List Char) {tokens : List Token}
    (hnested : ∀ column, nestedLines (column + 2) d = line column)
    (hvalue : ∀ column, valueLines column d = ' ' :: line column)
    (hfalse : nodeTokens false d = tokens) (htrue : nodeTokens true d = tokens)
    (h : ∀ {column parent k : Nat} {rest text : List Char} (columns : List Nat) (allowed : Bool),
      Margin column rest text →
      column ≤ parent → parent < k →
        (Place.mk (line parent ++ text) k (parent :: columns) allowed).Yields tokens
        ⟨rest, column, parent :: columns, true⟩) : LinesYield d where
  nested columns hmargin hcolumn := by
    rw [hnested, hfalse]
    exact h columns true hmargin hcolumn (by omega)
  value columns hmargin hcolumn hk := by
    rw [hvalue, htrue]
    exact (Place.yields_space _ _ _ _).trans (h columns false hmargin hcolumn (by omega))

/-- A sequence that is nested in a collection opens further right, and ends before the margin. -/
theorem yields_nestedEntries {item : Document} {items : List Document}
    (h : ∀ d ∈ item :: items, LinesYield d) (hmargin : Margin column rest text)
    (hcolumn : column ≤ parent) (columns : List Nat) :
    (Place.mk (entryLines (parent + 2) true (item :: items) ++ text) (parent + 2)
      (parent :: columns) true).Yields
      (.sequenceStart :: entryTokens (item :: items) ++ [.blockEnd]) ⟨rest, column,
        parent :: columns, true⟩ := by
  have hopen : Opening (parent + 2) .sequenceStart (parent :: columns) (parent :: columns)
      [.sequenceStart] :=
    .opens fun k hk => by simpa using Option.some.inj hk ▸ Nat.lt_add_of_pos_right (by omega)
  have hentries := yields_entryLines h hopen hmargin (by omega)
  have hend := Place.yields_blockEnd hmargin.begins
    (by omega : column < parent + 2) (parent :: columns) true
  simpa using hentries.trans hend

/-- A mapping that is nested in a collection opens further right, and ends before the margin. -/
theorem yields_nestedFields {field : String × Document} {fields : List (String × Document)}
    (h : ∀ f ∈ field :: fields, LinesYield f.2) (hmargin : Margin column rest text)
    (hcolumn : column ≤ parent) (columns : List Nat) :
    (Place.mk (fieldLines (parent + 2) true (field :: fields) ++ text) (parent + 2)
      (parent :: columns) true).Yields
      (.mappingStart :: fieldTokens (field :: fields) ++ [.blockEnd]) ⟨rest, column,
        parent :: columns, true⟩ := by
  have hopen :
      Opening (parent + 2) .mappingStart (parent :: columns) (parent :: columns) [.mappingStart] :=
    .opens fun k hk => by simpa using Option.some.inj hk ▸ Nat.lt_add_of_pos_right (by omega)
  have hfields := yields_fieldLines h hopen hmargin (by omega)
  have hend := Place.yields_blockEnd hmargin.begins
    (by omega : column < parent + 2) (parent :: columns) true
  simpa using hfields.trans hend

end

/-- The lines of a document yield its tokens. -/
theorem linesYield {d : Document} (h : d.IsTextual) : LinesYield d := by
  induction h with
  | bool b =>
    refine .of_line (fun _ => (if b then "true" else "false").toList ++ ['\n'])
      (fun _ => by simp [nestedLines, valueLine?])
      (fun _ => by simp [valueLines, valueLine?]) rfl rfl
      fun columns allowed hmargin hcolumn hk => ?_
    cases b <;> exact Place.yields_plainLine (by decide) (by decide) hmargin hcolumn hk
      columns allowed
  | text s =>
    exact .of_line (fun column => scalarLine (column + 2) s.toList)
      (fun _ => by simp [nestedLines, valueLine?])
      (fun _ => by simp [valueLines, valueLine?]) rfl rfl
      fun columns allowed hmargin hcolumn hk =>
        Place.yields_scalarLine s.toList hmargin hcolumn hk columns allowed
  | @list items h ih =>
    cases items with
    | nil =>
      exact .of_line (fun _ => ['[', ']', '\n']) (fun _ => by simp [nestedLines, valueLine?])
        (fun _ => by simp [valueLines, valueLine?]) rfl rfl
        fun columns allowed hmargin _ hk => Place.yields_emptyList hmargin hk columns allowed
    | cons item items =>
      refine ⟨fun columns hmargin hcolumn => ?_,
        fun {column parent k rest text} columns hmargin hcolumn hk => ?_⟩
      · rw [nestedLines]
        exact yields_nestedEntries ih hmargin hcolumn columns
      · have hentries := yields_entryLines ih (.opened columns) hmargin hcolumn
        rw [valueLines, List.cons_append]
        exact (Place.yields_margin (margin_entryLines parent item items text) k _ false).trans
          hentries
  | @mapping fields hnames h ih =>
    cases fields with
    | nil =>
      exact .of_line (fun _ => ['\x7b', '\x7d', '\n']) (fun _ => by simp [nestedLines, valueLine?])
        (fun _ => by simp [valueLines, valueLine?]) rfl rfl
        fun columns allowed hmargin _ hk => Place.yields_emptyMapping hmargin hk columns allowed
    | cons field fields =>
      refine ⟨fun columns hmargin hcolumn => ?_,
        fun {column parent k rest text} columns hmargin hcolumn hk => ?_⟩
      · rw [nestedLines]
        exact yields_nestedFields ih hmargin hcolumn columns
      · rw [valueLines, List.cons_append]
        exact (Place.yields_margin (margin_fieldLines (parent + 2) field fields text) k _
          false).trans
          (yields_nestedFields ih hmargin hcolumn columns)

end Yaml

end ConventionalRelease
