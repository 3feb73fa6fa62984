import ConventionalRelease.Proofs.Yaml.DocumentLines
import ConventionalRelease.Yaml.Reader

/-!
# Documents from tokens

The tokens of a document are read as the document (`tokensRead`), whatever comes after them: each
entry and each field takes its own tokens and leaves the others. As much fuel as three times the
number of tokens is enough.
-/

namespace ConventionalRelease

/-- A new key comes last. -/
theorem Document.put_of_not_mem {key : String} {fields : List (String × Document)}
    (h : key ∉ fields.map (·.1)) (value : Document) :
    Document.put key value fields = fields ++ [(key, value)] := by
  induction fields with
  | nil => rfl
  | cons field fields ih =>
    obtain ⟨hname, hrest⟩ := not_or.1 (fun hmem => h (List.mem_cons.2 hmem))
    rw [put, if_neg (Ne.symm hname), ih hrest, List.cons_append]

namespace Yaml

/-! ## Single values -/

/-- A text that is written plain is read as a text. -/
theorem plainDocument?_of_isPlain {s : List Char} (h : ScalarStyle.of s = .plain) :
    plainDocument? s = some (.text (String.ofList s)) := by
  obtain ⟨-, hclear⟩ := ScalarStyle.allowsPlain_of_eq h
  rw [isAmbiguous, Bool.or_eq_false_iff, Bool.or_eq_false_iff] at hclear
  have hform : PlainForm.of s = .word := by simpa using hclear.1.2
  rw [plainDocument?, hform]

theorem node?_scalarToken (s : String) (style : Style) (rest : List Token) (fuel : Nat) :
    node? (fuel + 1) style (scalarToken s.toList :: rest) = some (.text s, rest) := by
  rw [scalarToken, node?]
  by_cases hplain : ScalarStyle.of s.toList = .plain
  · simp [hplain, plainDocument?_of_isPlain hplain]
  · simp [hplain]

theorem key?_scalarToken (key : String) (rest : List Token) :
    key? [.key, .value, .blockEnd] (scalarToken key.toList :: rest) = some (key, rest) := by
  simp [key?, isMissing, scalarToken]

/-! ## Nodes -/

/-- The tokens of a document are read as the document. -/
def TokensRead (d : Document) : Prop :=
  ∀ (inValue : Bool) {style : Style}, style ≠ .flow → (inValue = true → style = .blockValue) →
    ∀ {rest : List Token},
    (inValue = true → rest.head? ≠ some .entry) → ∀ {fuel : Nat},
    3 * (nodeTokens inValue d).length ≤ fuel →
    node? fuel style (nodeTokens inValue d ++ rest) = some (d, rest)

/-- The tokens of a node do not begin with a key, a value or the end of a collection, and with an
entry only as a value. -/
theorem exists_nodeTokens_eq (inValue : Bool) (d : Document) :
    ∃ t tokens, nodeTokens inValue d = t :: tokens ∧
    t ≠ .key ∧ t ≠ .value ∧ t ≠ .blockEnd ∧ (inValue = false → t ≠ .entry) := by
  cases d with
  | list items =>
    cases items with
    | nil => exact ⟨_, _, rfl, by simp⟩
    | cons item items => cases inValue <;> exact ⟨_, _, rfl, by decide⟩
  | mapping fields => cases fields <;> exact ⟨_, _, rfl, by simp⟩
  | _ => exact ⟨_, _, rfl, by simp [scalarToken]⟩

section

variable {rest : List Token} {fuel : Nat}

/-- The item of an entry is read. -/
theorem optionalNode?_item {d : Document} (h : TokensRead d) (stops : List Token)
    (hstops : ∀ t ∈ stops, t = .entry ∨ t = .key ∨ t = .value ∨ t = .blockEnd)
    (hfuel : 3 * (nodeTokens false d).length < fuel) (rest : List Token) :
    optionalNode? fuel .block stops (nodeTokens false d ++ rest) = some (d, rest) := by
  obtain ⟨fuel, rfl⟩ := Nat.exists_eq_succ_of_ne_zero (Nat.ne_zero_of_lt hfuel)
  have hread := h false (by decide : Style.block ≠ .flow) nofun
    (nofun : _ → rest.head? ≠ _) (Nat.le_of_lt_succ hfuel)
  obtain ⟨t, tokens, htokens, hkey, hvalue, hend, hentry⟩ := exists_nodeTokens_eq false d
  have hmissing : isMissing stops (nodeTokens false d ++ rest) = false := by
    rw [htokens, List.cons_append, isMissing, decide_eq_false_iff_not]
    intro ht
    rcases hstops t ht with rfl | rfl | rfl | rfl
    · exact hentry rfl rfl
    · exact hkey rfl
    · exact hvalue rfl
    · exact hend rfl
  rw [optionalNode?, hmissing, if_neg Bool.false_ne_true, hread]

theorem sequence?_entryTokens {items : List Document} (h : ∀ d ∈ items, TokensRead d)
    (before : List Document) (rest : List Token) (hpos : 0 < fuel)
    (hfuel : 3 * (entryTokens items).length ≤ fuel + 1) :
    sequence? fuel before (entryTokens items ++ .blockEnd :: rest) =
      some (.list (before ++ items), rest) := by
  induction items generalizing before fuel with
  | nil =>
    obtain ⟨fuel, rfl⟩ := Nat.exists_eq_succ_of_ne_zero (Nat.ne_of_gt hpos)
    rw [entryTokens, List.nil_append, sequence?, List.append_nil]
  | cons item items ih =>
    obtain ⟨fuel, rfl⟩ := Nat.exists_eq_succ_of_ne_zero (Nat.ne_of_gt hpos)
    obtain ⟨hitem, hitems⟩ := List.forall_mem_cons.1 h
    rw [entryTokens, List.length_append, List.length_cons] at hfuel
    have hread := optionalNode?_item hitem [.entry, .blockEnd] (by simp) (by omega : _ < fuel)
      (entryTokens items ++ .blockEnd :: rest)
    rw [entryTokens, List.cons_append, List.cons_append, List.append_assoc, sequence?, hread]
    simpa using ih hitems (before ++ [item]) (by omega) (by omega)

theorem entries?_entryTokens {items : List Document} (h : ∀ d ∈ items, TokensRead d)
    (before : List Document) (hrest : rest.head? ≠ some .entry) (hpos : 0 < fuel)
    (hfuel : 3 * (entryTokens items).length ≤ fuel + 1) :
    entries? fuel before (entryTokens items ++ rest) = some (.list (before ++ items), rest) := by
  induction items generalizing before fuel with
  | nil =>
    obtain ⟨fuel, rfl⟩ := Nat.exists_eq_succ_of_ne_zero (Nat.ne_of_gt hpos)
    rw [entryTokens, List.nil_append, List.append_nil, entries?]
    intro more hmore
    exact hrest (by rw [hmore]; rfl)
  | cons item items ih =>
    obtain ⟨fuel, rfl⟩ := Nat.exists_eq_succ_of_ne_zero (Nat.ne_of_gt hpos)
    obtain ⟨hitem, hitems⟩ := List.forall_mem_cons.1 h
    rw [entryTokens, List.length_append, List.length_cons] at hfuel
    have hread := optionalNode?_item hitem [.entry, .key, .value, .blockEnd] (by simp)
      (by omega : _ < fuel)
      (entryTokens items ++ rest)
    rw [entryTokens, List.cons_append, List.cons_append, List.append_assoc, entries?, hread]
    simpa using ih hitems (before ++ [item]) (by omega) (by omega)

/-- The value of a key is read, up to the next key or the end of the mapping. -/
theorem valueAfterKey?_value {d : Document} (h : TokensRead d) (inValue : Bool)
    (hfuel : 3 * (nodeTokens inValue d).length + 1 < fuel) (hrest : rest.head? ≠ some .entry) :
    valueAfterKey? fuel .blockValue [.key, .value, .blockEnd]
      (.value :: nodeTokens inValue d ++ rest) = some (d, rest) := by
  obtain ⟨fuel, rfl⟩ : ∃ n, fuel = n + 2 := ⟨fuel - 2, by omega⟩
  have hread := h inValue (by decide : Style.blockValue ≠ .flow) (fun _ => rfl) (fun _ => hrest)
    (by omega : _ ≤ fuel)
  obtain ⟨t, tokens, htokens, hkey, hvalue, hend, -⟩ := exists_nodeTokens_eq inValue d
  have hmissing : isMissing [.key, .value, .blockEnd] (nodeTokens inValue d ++ rest) = false := by
    rw [htokens, List.cons_append, isMissing, decide_eq_false_iff_not]
    simp [hkey, hvalue, hend]
  rw [List.cons_append, valueAfterKey?, optionalNode?, hmissing, if_neg Bool.false_ne_true, hread]

theorem mapping?_fieldTokens {fields : List (String × Document)} (h : ∀ f ∈ fields, TokensRead f.2)
    (before : List (String × Document)) (hnames : ((before ++ fields).map (·.1)).Nodup)
    (rest : List Token) (hpos : 0 < fuel) (hfuel : 3 * (fieldTokens fields).length ≤ fuel + 1) :
    mapping? fuel before (fieldTokens fields ++ .blockEnd :: rest) =
      some (.mapping (before ++ fields), rest) := by
  induction fields generalizing before fuel with
  | nil =>
    obtain ⟨fuel, rfl⟩ := Nat.exists_eq_succ_of_ne_zero (Nat.ne_of_gt hpos)
    rw [fieldTokens, List.nil_append, mapping?, List.append_nil]
  | cons field fields ih =>
    obtain ⟨fuel, rfl⟩ := Nat.exists_eq_succ_of_ne_zero (Nat.ne_of_gt hpos)
    obtain ⟨hfield, hfields⟩ := List.forall_mem_cons.1 h
    obtain ⟨key, value⟩ := field
    replace hfield : TokensRead value := hfield
    rw [fieldTokens] at hfuel
    simp only [List.length_append, List.length_cons] at hfuel
    have hhead : (fieldTokens fields ++ .blockEnd :: rest).head? ≠ some .entry := by
      cases fields with
      | nil => simp [fieldTokens]
      | cons next fields => simp [fieldTokens]
    have hvalue := valueAfterKey?_value hfield (isSimpleKey key) (by omega : _ < fuel) hhead
    have hnew : key ∉ before.map (·.1) := by
      intro hmem
      rw [List.map_append] at hnames
      exact (List.nodup_append.1 hnames).2.2 key hmem key (by simp) rfl
    have hrest := ih hfields (before ++ [(key, value)]) (by simpa using hnames)
      (by omega : 0 < fuel) (by omega)
    simp only [fieldTokens, List.cons_append, List.append_assoc] at hvalue hrest ⊢
    rw [mapping?, key?_scalarToken]
    simp [hvalue, Document.put_of_not_mem hnew, hrest]

end

theorem tokensRead_list {items : List Document} (h : ∀ d ∈ items, TokensRead d) :
    TokensRead (.list items) := by
  intro inValue style hflow hvalue rest hrest fuel hfuel
  cases items with
  | nil =>
    obtain ⟨fuel, rfl⟩ : ∃ n, fuel = n + 2 := ⟨fuel - 2, by simp [nodeTokens] at hfuel; omega⟩
    rfl
  | cons item items =>
    cases inValue with
    | false =>
      have hnode : nodeTokens false (.list (item :: items)) =
          .sequenceStart :: entryTokens (item :: items) ++ [.blockEnd] := by simp [nodeTokens]
      rw [hnode] at hfuel ⊢
      simp only [List.length_append, List.length_cons] at hfuel
      obtain ⟨fuel, rfl⟩ := Nat.exists_eq_succ_of_ne_zero (n := fuel) (by omega)
      have hentries := sequence?_entryTokens h [] rest (by omega : 0 < fuel) (by omega)
      simpa [node?, hflow] using hentries
    | true =>
      have hnode : nodeTokens true (.list (item :: items)) = entryTokens (item :: items) := by
        simp [nodeTokens]
      have hhead : ∃ more, entryTokens (item :: items) ++ rest = .entry :: more := by
        simp [entryTokens]
      have hpos : 0 < (entryTokens (item :: items)).length := by simp [entryTokens]
      rw [hnode] at hfuel ⊢
      obtain ⟨fuel, rfl⟩ := Nat.exists_eq_succ_of_ne_zero (n := fuel) (by omega)
      have hentries := entries?_entryTokens h [] (hrest rfl) (by omega : 0 < fuel) (by omega)
      obtain ⟨more, hmore⟩ := hhead
      rw [hmore] at hentries ⊢
      simpa [node?, hvalue rfl] using hentries

theorem tokensRead_mapping {fields : List (String × Document)} (hnames : (fields.map (·.1)).Nodup)
    (h : ∀ f ∈ fields, TokensRead f.2) : TokensRead (.mapping fields) := by
  intro inValue style hflow hvalue rest hrest fuel hfuel
  cases fields with
  | nil =>
    obtain ⟨fuel, rfl⟩ : ∃ n, fuel = n + 2 := ⟨fuel - 2, by simp [nodeTokens] at hfuel; omega⟩
    rfl
  | cons field fields =>
    have hnode : nodeTokens inValue (.mapping (field :: fields)) =
        .mappingStart :: fieldTokens (field :: fields) ++ [.blockEnd] := by simp [nodeTokens]
    rw [hnode] at hfuel ⊢
    simp only [List.length_append, List.length_cons] at hfuel
    obtain ⟨fuel, rfl⟩ := Nat.exists_eq_succ_of_ne_zero (n := fuel) (by omega)
    have hfields := mapping?_fieldTokens h [] hnames rest (by omega : 0 < fuel) (by omega)
    simpa [node?, hflow] using hfields

/-- The tokens of a document are read as the document. -/
theorem tokensRead {d : Document} (h : d.IsTextual) : TokensRead d := by
  induction h with
  | bool b =>
    intro inValue style hflow hvalue rest hrest fuel hfuel
    obtain ⟨fuel, rfl⟩ :=
      Nat.exists_eq_succ_of_ne_zero (n := fuel) (by simp [nodeTokens] at hfuel; omega)
    cases b <;> rfl
  | text s =>
    intro inValue style hflow hvalue rest hrest fuel hfuel
    obtain ⟨fuel, rfl⟩ :=
      Nat.exists_eq_succ_of_ne_zero (n := fuel) (by simp [nodeTokens] at hfuel; omega)
    exact node?_scalarToken s style rest fuel
  | list h ih => exact tokensRead_list ih
  | mapping hnames h ih => exact tokensRead_mapping hnames ih

end Yaml

end ConventionalRelease
