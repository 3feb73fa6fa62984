import ConventionalRelease.Proofs.Yaml.DocumentTokens

/-!
# Documents read back

A document of texts and truth values that is written as a mapping is read as that document
(`read?_write`). The characters of its lines are those that are written as they stand, so nothing is
changed before the text is cut into tokens. Its lines yield its tokens, and its tokens are read as
the document.
-/

namespace ConventionalRelease.Yaml

/-! ## Characters -/

/-- A text of characters that are written as they stand. -/
def IsWritable (s : List Char) : Prop :=
  ∀ c ∈ s, isWritable c = true

namespace IsWritable

variable {s t : List Char}

theorem nil : IsWritable [] := nofun

theorem cons {c : Char} (hc : isWritable c = true) (h : IsWritable s) : IsWritable (c :: s) :=
  List.forall_mem_cons.2 ⟨hc, h⟩

theorem append (h : IsWritable s) (h' : IsWritable t) : IsWritable (s ++ t) :=
  List.forall_mem_append.2 ⟨h, h'⟩

theorem spaces (n : Nat) : IsWritable (spaces n) := by
  intro c hc
  obtain ⟨-, rfl⟩ := List.mem_replicate.1 hc
  rfl

theorem plain (h : allowsPlain s = true) : IsWritable s := by
  simp only [allowsPlain, Bool.not_eq_true', Bool.or_eq_false_iff] at h
  simpa [IsWritable] using h.2

theorem singleText (h : allowsSingle s = true) (indent : Nat) :
    IsWritable (singleText indent s) := by
  simp only [allowsSingle, Bool.not_eq_true', Bool.or_eq_false_iff] at h
  intro c hc
  rcases mem_singleText hc with rfl | rfl | hc
  · rfl
  · rfl
  · simpa using List.any_eq_false.1 h.2 c hc

theorem doubleText (s : List Char) : IsWritable (doubleText s) :=
  fun _ hc => (mem_doubleText hc).1

theorem literalHeader (s : List Char) : IsWritable (literalHeader s) := by
  rw [literalHeader_eq]
  refine .append (.cons rfl ?_) ?_
  · split
    · exact .cons rfl .nil
    · exact .nil
  · cases Chomping.of s
    · exact .cons rfl .nil
    · exact .nil
    · exact .cons rfl .nil

theorem literalLines (h : allowsLiteral s = true) (indent : Nat) :
    IsWritable (literalLines indent s) := by
  have hgo (broken : Bool) (s : List Char) (h : IsWritable s) :
      IsWritable (literalLines.go indent broken s) := by
    induction s generalizing broken with
    | nil => cases broken <;> simp [literalLines.go, IsWritable]; rfl
    | cons c s ih =>
      obtain ⟨hc, hs⟩ := List.forall_mem_cons.1 h
      rw [literalLines.go]
      split
      · exact .cons hc (ih true hs)
      · refine .append ?_ (.cons hc (ih false hs))
        cases broken
        · exact .nil
        · exact .spaces indent
  simp only [allowsLiteral, Bool.not_eq_true', Bool.or_eq_false_iff] at h
  exact hgo true s fun c hc => by simpa using List.any_eq_false.1 h.2 c hc

theorem scalarLine (indent : Nat) (s : List Char) : IsWritable (scalarLine indent s) := by
  have hfeed : IsWritable ['\n'] := .cons rfl .nil
  rw [Yaml.scalarLine]
  split
  · next hstyle => exact (plain (ScalarStyle.allowsPlain_of_eq hstyle).1).append hfeed
  · next hstyle => exact (singleText (ScalarStyle.allowsSingle_of_eq hstyle).1 indent).append hfeed
  · exact (doubleText s).append hfeed
  · next hstyle =>
    exact (literalHeader s).append
      (.cons rfl (literalLines (ScalarStyle.allowsLiteral_of_eq hstyle) indent))

theorem keyText (s : List Char) : IsWritable (keyText s) := by
  rw [Yaml.keyText]
  split
  · next hstyle => exact plain (ScalarStyle.allowsPlain_of_eq hstyle).1
  · next hstyle => exact singleText (ScalarStyle.allowsSingle_of_eq hstyle).1 0
  · exact doubleText s
  · exact doubleText s

end IsWritable

/-- The lines of a document are of characters that are written as they stand. -/
structure LinesWritable (d : Document) : Prop where
  nested : ∀ column, IsWritable (nestedLines column d)
  value : ∀ column, IsWritable (valueLines column d)

namespace LinesWritable

theorem entryLines {items : List Document} (h : ∀ d ∈ items, LinesWritable d) (column : Nat)
    (inLine : Bool) :
    IsWritable (entryLines column inLine items) := by
  induction items generalizing inLine with
  | nil => exact .nil
  | cons item items ih =>
    obtain ⟨hitem, hitems⟩ := List.forall_mem_cons.1 h
    have hindent : IsWritable (if inLine then [] else spaces column) := by
      cases inLine
      · exact .spaces column
      · exact .nil
    rw [Yaml.entryLines]
    exact (hindent.append (.cons rfl (.cons rfl (hitem.nested (column + 2))))).append
      (ih hitems false)

theorem fieldLines {fields : List (String × Document)} (h : ∀ f ∈ fields, LinesWritable f.2)
    (column : Nat) (inLine : Bool) :
    IsWritable (fieldLines column inLine fields) := by
  induction fields generalizing inLine with
  | nil => exact .nil
  | cons field fields ih =>
    obtain ⟨hvalue, hfields⟩ := List.forall_mem_cons.1 h
    obtain ⟨key, value⟩ := field
    have hindent : IsWritable (if inLine then [] else spaces column) := by
      cases inLine
      · exact .spaces column
      · exact .nil
    have hsimple := (IsWritable.keyText key.toList).append (.cons
      (by rfl : isWritable ':' = true) (hvalue.value column))
    have hlong : IsWritable ('?' :: ' ' :: (scalarLine (column + 2) key.toList ++
        (spaces column ++ ':' :: ' ' :: nestedLines (column + 2) value))) :=
      .cons rfl (.cons rfl ((IsWritable.scalarLine _ _).append ((IsWritable.spaces column).append
        (.cons rfl (.cons rfl (hvalue.nested (column + 2)))))))
    rw [Yaml.fieldLines]
    refine (hindent.append ?_).append (ih hfields false)
    split
    · exact hsimple
    · simpa using hlong

/-- A document that is written on a line. -/
theorem of_line {d : Document} (line : Nat → List Char)
    (hnested : ∀ column, nestedLines column d = line (column - 2)) (hvalue : ∀ column,
      valueLines column d = ' ' :: line column) (h : ∀ column, IsWritable (line column)) :
    LinesWritable d where
  nested column := by
    rw [hnested]
    exact h (column - 2)
  value column := by
    rw [hvalue]
    exact .cons rfl (h column)

end LinesWritable

theorem linesWritable {d : Document} (h : d.IsTextual) : LinesWritable d := by
  induction h with
  | bool b =>
    refine .of_line (fun _ => (if b then "true" else "false").toList ++ ['\n'])
      (fun _ => by simp [nestedLines, valueLine?]) (fun _ => by
        simp [valueLines, valueLine?]) fun _ => ?_
    cases b <;> exact List.all_eq_true.1 rfl
  | text s =>
    exact .of_line (fun column => scalarLine (column + 2) s.toList)
      (fun _ => by simp [nestedLines, valueLine?]) (fun _ => by simp [valueLines, valueLine?])
      fun column => .scalarLine (column + 2) s.toList
  | @list items h ih =>
    cases items with
    | nil =>
      exact .of_line (fun _ => ['[', ']', '\n']) (fun _ => by simp [nestedLines, valueLine?])
        (fun _ => by simp [valueLines, valueLine?]) fun _ => List.all_eq_true.1 rfl
    | cons item items =>
      refine ⟨fun column => ?_, fun column => ?_⟩
      · rw [nestedLines]
        exact LinesWritable.entryLines ih column true
      · rw [valueLines]
        exact .cons rfl (LinesWritable.entryLines ih column false)
  | @mapping fields hnames h ih =>
    cases fields with
    | nil =>
      exact .of_line (fun _ => ['\x7b', '\x7d', '\n']) (fun _ => by simp [nestedLines, valueLine?])
        (fun _ => by simp [valueLines, valueLine?]) fun _ => List.all_eq_true.1 rfl
    | cons field fields =>
      refine ⟨fun column => ?_, fun column => ?_⟩
      · rw [nestedLines]
        exact LinesWritable.fieldLines ih column true
      · rw [valueLines]
        exact .cons rfl (LinesWritable.fieldLines ih (column + 2) false)

/-! ## Texts before they are cut -/

/-- A character that is written as it stands is admitted, and is none that is changed or left out
before. -/
theorem isAdmitted_of_isWritable {c : Char} (h : isWritable c = true) :
    isAdmitted c = true ∧ c ≠ '\r' ∧ c ≠ '\u0085' ∧ c ≠ '\uFEFF' := by
  refine ⟨?_, ?_, ?_, ?_⟩
  · simp only [isWritable, Bool.or_eq_true, Bool.and_eq_true, decide_eq_true_eq] at h
    simp only [isAdmitted, Bool.or_eq_true, Bool.and_eq_true, decide_eq_true_eq]
    rcases h with ((h | h) | h) | h
    · have hc : c = '\n' := Char.toNat_inj.1 h
      simp [hc]
    · simp [h]
    · simp [h]
    · simp [h]
  all_goals
    rintro rfl
    cases h

theorem unifyBreaks_of_isWritable {s : List Char} (h : IsWritable s) : unifyBreaks s = s := by
  induction s with
  | nil => rfl
  | cons c s ih =>
    obtain ⟨hc, hs⟩ := List.forall_mem_cons.1 h
    obtain ⟨-, hreturn, hnext, -⟩ := isAdmitted_of_isWritable hc
    rw [unifyBreaks, ih hs]
    · simp [hreturn, hnext]
    · rintro _ rfl
      exact absurd rfl hreturn

/-- A text of characters that are written as they stand is cut into tokens as it stands. -/
theorem readAll?_of_isWritable {s : List Char} (h : IsWritable s) :
    Token.readAll? s = ({ cursor := { rest := s } : Scan }).run? (s.length + 1) := by
  have hmark : s.head? ≠ some '\uFEFF' := fun hhead =>
    (isAdmitted_of_isWritable (h _ (List.mem_of_head? hhead))).2.2.2 rfl
  have hadmitted : s.all isAdmitted = true :=
    List.all_eq_true.2 fun c hc => (isAdmitted_of_isWritable (h c hc)).1
  rw [Token.readAll?, if_neg hmark, if_pos hadmitted, unifyBreaks_of_isWritable h]

/-! ## Reading back -/

/-- At the end of the text the collection that is open ends. -/
theorem Place.run?_of_yields {source : List Char} {tokens : List Token}
    (h : (Place.mk source 0 [] true).Yields tokens ⟨[], 0, [0], true⟩) :
    ({ cursor := { rest := source } : Scan }).run? (source.length + 1) =
      some (tokens ++ [.blockEnd]) := by
  obtain ⟨line, index, key, hkey, hleads⟩ := h [] 0 0 none nofun
  refine hleads.run?_eq fun fuel => ?_
  have hdrop := Scan.dropKey?_eq (s := (scan ⟨[], 0, [0], true⟩ line index tokens key).closeAll)
    fun k hk => (hkey k hk).1
  rw [Scan.run?, Scan.skipGap_of_begins Margin.of_nil.begins]
  exact congrArg (Option.map fun s => s.tokens) hdrop

variable {field : String × Document} {fields : List (String × Document)}

/-- The lines of a mapping are cut into its tokens. -/
theorem readAll?_nestedLines (h : (Document.mapping (field :: fields)).IsTextual) :
    Token.readAll? (nestedLines 0 (.mapping (field :: fields))) =
      some (nodeTokens false (.mapping (field :: fields))) := by
  have hwritable := (linesWritable h).nested 0
  cases h with
  | mapping hnames h =>
    have hlines := yields_fieldLines (fun f hf => linesYield (h f hf))
      (.opens nofun : Opening 0 .mappingStart [] [] [.mappingStart]) .of_nil (Nat.le_refl 0)
    rw [List.append_nil, ← nestedLines] at hlines
    rw [readAll?_of_isWritable hwritable, Place.run?_of_yields hlines]
    simp [nodeTokens]

theorem ofTokens?_mappingStart {tokens : List Token} {d : Document}
    (h : node? (3 * (tokens.length + 1) + 3) .block (.mappingStart :: tokens) = some (d, [])) :
    ofTokens? (.mappingStart :: tokens) = some d := by
  simp [ofTokens?, h]

/-- A document that is written as a mapping is read as the document. -/
theorem read?_write (h : (Document.mapping (field :: fields)).IsTextual) :
    read? (write (.mapping (field :: fields))) = some (.mapping (field :: fields)) := by
  have htokens := readAll?_nestedLines h
  have hnode := tokensRead h false (by decide : Style.block ≠ .flow) nofun
    (nofun : _ → ([] : List Token).head? ≠ _)
    (Nat.le_add_right _ 3)
  have hstart : nodeTokens false (.mapping (field :: fields)) =
      .mappingStart :: (fieldTokens (field :: fields) ++ [.blockEnd]) := by
    simp [nodeTokens]
  rw [hstart] at htokens
  rw [List.append_nil, hstart, List.length_cons] at hnode
  rw [read?, write, String.toList_ofList, htokens, Option.bind_some, ofTokens?_mappingStart hnode]

end ConventionalRelease.Yaml
