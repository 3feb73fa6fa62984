import ConventionalRelease.Proofs.Document.DistinctKeys
import ConventionalRelease.Toml.Reader

/-!
# Distinct keys in TOML

No key is given a value twice and no table is defined twice, so no mapping that is read holds a key
twice (`read?_hasDistinctKeys`). All tables are changed by `update?`, which leaves the keys distinct
if the change at the end of the path does (`KeepsDistinct.update?`).
-/

namespace ConventionalRelease.Toml

open Document (HasDistinctKeys ReadsDistinctKeys)

/-! ## Tables -/

theorem fieldDocuments_eq_map (fields : Fields) :
    fieldDocuments fields = fields.map fun e => (e.1, e.2.toDocument) := by
  induction fields with
  | nil => rw [fieldDocuments, List.map_nil]
  | cons entry fields ih => rw [fieldDocuments, ih, List.map_cons]

theorem elementDocuments_eq_map (elements : List Fields) :
    elementDocuments elements = elements.map fun fields => .mapping (fieldDocuments fields) := by
  induction elements with
  | nil => rw [elementDocuments, List.map_nil]
  | cons fields elements ih => rw [elementDocuments, ih, List.map_cons]

/-- The table is a mapping with distinct keys. -/
def Fields.Distinct (fields : Fields) : Prop :=
  (Document.mapping (fieldDocuments fields)).HasDistinctKeys

namespace Fields.Distinct

variable {fields : Fields} {key : String} {item : Item}

theorem nil : Fields.Distinct [] := by
  rw [Fields.Distinct, fieldDocuments]
  exact .nil

/-- An item of a table has distinct keys. -/
theorem of_lookup (h : fields.Distinct) (hitem : fields.lookup key = some item) :
    item.toDocument.HasDistinctKeys := by
  obtain ⟨-, hvalues⟩ := HasDistinctKeys.of_mapping h
  rw [fieldDocuments_eq_map] at hvalues
  exact hvalues _ (List.mem_map.2 ⟨_, mem_of_lookup hitem, rfl⟩)

/-- An item that is put in leaves the keys distinct. -/
theorem put (h : fields.Distinct) (hitem : item.toDocument.HasDistinctKeys) :
    (Fields.put key item fields).Distinct := by
  have hput : fieldDocuments (Fields.put key item fields) =
      Document.put key item.toDocument (fieldDocuments fields) := by
    clear h
    induction fields with
    | nil => simp [Fields.put, Document.put, fieldDocuments]
    | cons entry fields ih =>
      obtain ⟨other, old⟩ := entry
      rw [Fields.put, fieldDocuments, Document.put]
      split
      · rw [fieldDocuments]
      · rw [fieldDocuments, ih]
  rw [Fields.Distinct, hput]
  exact Document.hasDistinctKeys_put h hitem

/-- An item whose key was not there leaves the keys distinct. -/
theorem concat (h : fields.Distinct) (hkey : fields.lookup key = none)
    (hitem : item.toDocument.HasDistinctKeys) :
    Fields.Distinct (fields ++ [(key, item)]) := by
  have hnew : key ∉ (fieldDocuments fields).map (·.1) := by
    rw [fieldDocuments_eq_map, List.map_map]
    intro hmem
    obtain ⟨e, he, hname⟩ := List.mem_map.1 hmem
    exact absurd hname.symm (by simpa using List.lookup_eq_none_iff.1 hkey e he)
  rw [Fields.Distinct, fieldDocuments_eq_map, List.map_append, ← fieldDocuments_eq_map]
  exact HasDistinctKeys.concat h hnew hitem

end Fields.Distinct

/-- A table has distinct keys if its fields do. -/
theorem toDocument_table {origin : Origin} {fields : Fields} :
    (Item.table origin fields).toDocument.HasDistinctKeys ↔ fields.Distinct := by
  rw [Item.toDocument, Fields.Distinct]

/-- An array of tables has distinct keys if each of them does. -/
theorem toDocument_tables {elements : List Fields} :
    (Item.tables elements).toDocument.HasDistinctKeys ↔ ∀ fields ∈ elements, fields.Distinct := by
  rw [Item.toDocument, elementDocuments_eq_map]
  constructor
  · intro h fields hfields
    cases h with
    | list h => exact h _ (List.mem_map_of_mem hfields)
  · intro h
    refine .list fun d hd => ?_
    obtain ⟨fields, hfields, rfl⟩ := List.mem_map.1 hd
    exact h fields hfields

/-! ## Changes of tables -/

/-- A change of a table leaves its keys distinct. -/
def KeepsDistinct (f : Origin → Fields → Option Fields) : Prop :=
  ∀ origin fields changed, fields.Distinct → f origin fields = some changed → changed.Distinct

/-- A table that is changed within another one. -/
theorem KeepsDistinct.update? {f : Origin → Fields → Option Fields} (hf : KeepsDistinct f)
    (dotted : Bool) (path : List String) : KeepsDistinct (update? dotted f path) := by
  induction path with
  | nil => exact hf
  | cons key path ih =>
    intro origin fields changed h hchanged
    rw [Toml.update?] at hchanged
    split at hchanged
    · obtain ⟨inner, hinner, rfl⟩ := Option.map_eq_some_iff.1 hchanged
      exact h.put (toDocument_table.2 (ih _ _ _ .nil hinner))
    · cases hchanged
    · next found =>
      split at hchanged
      · cases hchanged
      · obtain ⟨inner, hinner, rfl⟩ := Option.map_eq_some_iff.1 hchanged
        exact h.put (toDocument_table.2 (ih _ _ _ (toDocument_table.1 (h.of_lookup found)) hinner))
    · next found =>
      split at hchanged
      · cases hchanged
      · next last hlast =>
        obtain ⟨inner, hinner, rfl⟩ := Option.map_eq_some_iff.1 hchanged
        have helements := toDocument_tables.1 (h.of_lookup found)
        have hnew := ih _ _ _ (helements last (List.mem_of_getLast? hlast)) hinner
        refine h.put
          (toDocument_tables.2 (List.forall_mem_append.2 ⟨fun fields hfields => ?_, by simpa⟩))
        exact helements fields (List.dropLast_subset _ hfields)

variable {key header : List String} {value : Document} {fields changed : Fields}

theorem assign?_distinct (hvalue : value.HasDistinctKeys) (h : fields.Distinct)
    (hchanged : assign? key value fields = some changed) : changed.Distinct := by
  obtain ⟨⟨path, last⟩, -, hchanged⟩ := Option.bind_eq_some_iff.1 hchanged
  refine KeepsDistinct.update? (fun origin fields changed h hchanged => ?_) true path _ _
    _ h hchanged
  split at hchanged
  · cases hchanged
  · split at hchanged
    · cases hchanged
    · next hnew =>
      rw [← Option.some.inj hchanged]
      exact h.concat (Option.not_isSome_iff_eq_none.1 hnew) (by rwa [Item.toDocument])

theorem defineTable?_distinct (h : fields.Distinct)
    (hchanged : defineTable? header fields = some changed) :
    changed.Distinct := by
  obtain ⟨⟨path, last⟩, -, hchanged⟩ := Option.bind_eq_some_iff.1 hchanged
  refine KeepsDistinct.update? (fun origin fields changed h hchanged => ?_) false path _ _
    _ h hchanged
  split at hchanged
  · next hnew =>
    rw [← Option.some.inj hchanged]
    exact h.concat hnew (toDocument_table.2 .nil)
  · next found =>
    rw [← Option.some.inj hchanged]
    exact h.put (toDocument_table.2 (toDocument_table.1 (h.of_lookup found)))
  · cases hchanged

theorem addTable?_distinct (h : fields.Distinct)
    (hchanged : addTable? header fields = some changed) :
    changed.Distinct := by
  obtain ⟨⟨path, last⟩, -, hchanged⟩ := Option.bind_eq_some_iff.1 hchanged
  refine KeepsDistinct.update? (fun origin fields changed h hchanged => ?_) false path _ _
    _ h hchanged
  split at hchanged
  · next hnew =>
    rw [← Option.some.inj hchanged]
    exact h.concat hnew (toDocument_tables.2 (List.forall_mem_singleton.2 .nil))
  · next found =>
    rw [← Option.some.inj hchanged]
    have helements := toDocument_tables.1 (h.of_lookup found)
    exact h.put
      (toDocument_tables.2 (List.forall_mem_append.2 ⟨helements, List.forall_mem_singleton.2 .nil⟩))
  · cases hchanged

/-! ## Values -/

/-- A word is a single value or none. -/
theorem word?_hasDistinctKeys {s : List Char} {d : Document} (h : word? s = some d) :
    d.HasDistinctKeys := by
  unfold word? at h
  dsimp only at h
  split at h
  · exact Option.some.inj h ▸ .bool _
  · split at h
    · exact Option.some.inj h ▸ .bool _
    · split at h
      · exact Option.some.inj h ▸ .null
      · split at h
        · exact Option.some.inj h ▸ .int _
        · obtain ⟨_, -, h⟩ := Option.bind_eq_some_iff.1 h
          split at h
          · exact Option.some.inj h ▸ .real _
          · split at h
            · exact Option.some.inj h ▸ .null
            · cases h

/-- With some fuel, all that is read has distinct keys if what was read before has them. -/
structure ReadersDistinct (fuel : Nat) : Prop where
  value : ∀ s, ReadsDistinctKeys (value? fuel s)
  array : ∀ items s, (∀ d ∈ items, d.HasDistinctKeys) → ReadsDistinctKeys (array? fuel items s)
  inlineTable : ∀ fields s, fields.Distinct → ReadsDistinctKeys (inlineTable? fuel fields s)
  field : ∀ s key d rest, field? fuel s = some ((key, d), rest) → d.HasDistinctKeys

namespace ReadersDistinct

variable {fuel : Nat} {s : List Char}

theorem value_succ (h : ReadersDistinct fuel) : ReadsDistinctKeys (value? (fuel + 1) s) := by
  unfold value?
  split
  · exact .none
  · exact h.array _ _ nofun
  · split
    · exact .some .nil _
    · exact h.inlineTable _ _ .nil
  · split
    · intro d rest heq
      obtain ⟨_, -, heq⟩ := Option.map_eq_some_iff.1 heq
      cases heq
      exact .text _
    · split
      · exact .some (.singleton (.text _)) _
      · intro d rest heq
        obtain ⟨_, hword, heq⟩ := Option.map_eq_some_iff.1 heq
        cases heq
        exact word?_hasDistinctKeys hword

theorem array_succ (h : ReadersDistinct fuel) {items : List Document}
    (hitems : ∀ d ∈ items, d.HasDistinctKeys) :
    ReadsDistinctKeys (array? (fuel + 1) items s) := by
  unfold array?
  split
  · exact .some (.list hitems) _
  · refine (h.value _).bind fun d rest hd => ?_
    have hmore : ∀ d' ∈ items ++ [d], d'.HasDistinctKeys :=
      List.forall_mem_append.2 ⟨hitems, by simpa⟩
    dsimp only
    split
    · exact h.array _ _ hmore
    · exact .some (.list hmore) _
    · exact .none

theorem inlineTable_succ (h : ReadersDistinct fuel) (hfields : fields.Distinct) :
    ReadsDistinctKeys (inlineTable? (fuel + 1) fields s) := by
  intro d rest heq
  unfold inlineTable? at heq
  obtain ⟨⟨⟨key, value⟩, rest'⟩, hfield, heq⟩ := Option.bind_eq_some_iff.1 heq
  obtain ⟨changed, hchanged, heq⟩ := Option.bind_eq_some_iff.1 heq
  have hdistinct := assign?_distinct (h.field _ _ _ _ hfield) hfields hchanged
  split at heq
  · exact h.inlineTable _ _ hdistinct _ _ heq
  · cases heq
    exact hdistinct
  · cases heq

theorem field_succ (h : ReadersDistinct fuel) {key : List String} {d : Document} {rest : List Char}
    (hfield : field? (fuel + 1) s = some ((key, d), rest)) : d.HasDistinctKeys := by
  unfold field? at hfield
  obtain ⟨⟨key', rest'⟩, -, hfield⟩ := Option.bind_eq_some_iff.1 hfield
  dsimp only at hfield
  split at hfield
  · obtain ⟨⟨value, rest''⟩, hvalue, hfield⟩ := Option.bind_eq_some_iff.1 hfield
    cases hfield
    exact h.value _ _ _ hvalue
  · cases hfield

end ReadersDistinct

/-- With whatever fuel, all that is read has distinct keys. -/
theorem readersDistinct (fuel : Nat) : ReadersDistinct fuel := by
  induction fuel with
  | zero =>
    exact {
      value := fun _ => .none
      array := fun _ _ _ => .none
      inlineTable := fun _ _ _ => .none
      field := nofun }
  | succ fuel ih =>
    exact {
      value := fun _ => ih.value_succ
      array := fun _ _ => ih.array_succ
      inlineTable := fun _ _ => ih.inlineTable_succ
      field := fun _ _ _ _ => ih.field_succ }

/-! ## Texts -/

/-- A line leaves the keys distinct. -/
theorem Sheet.line?_distinct {sheet next : Sheet} {s rest : List Char} (h : sheet.fields.Distinct)
    (hline : sheet.line? s = some (next, rest)) : next.fields.Distinct := by
  unfold Sheet.line? at hline
  split at hline
  · obtain ⟨⟨header, rest'⟩, -, hline⟩ := Option.bind_eq_some_iff.1 hline
    obtain ⟨changed, hchanged, hline⟩ := Option.bind_eq_some_iff.1 hline
    cases hline
    exact addTable?_distinct h hchanged
  · obtain ⟨⟨header, rest'⟩, -, hline⟩ := Option.bind_eq_some_iff.1 hline
    obtain ⟨changed, hchanged, hline⟩ := Option.bind_eq_some_iff.1 hline
    cases hline
    exact defineTable?_distinct h hchanged
  · obtain ⟨⟨⟨key, value⟩, rest'⟩, hfield, hline⟩ := Option.bind_eq_some_iff.1 hline
    obtain ⟨changed, hchanged, hline⟩ := Option.bind_eq_some_iff.1 hline
    obtain ⟨fields, hfields, hchanged⟩ := Option.bind_eq_some_iff.1 hchanged
    cases hchanged
    cases hline
    have hvalue := (readersDistinct _).field _ _ _ _ hfield
    exact KeepsDistinct.update? (fun _ _ _ h hchanged => assign?_distinct hvalue h hchanged) false _
      _ _ _ h hfields

/-- So do all lines. -/
theorem Sheet.read?_distinct {sheet last : Sheet} {fuel : Nat} {s : List Char}
    (h : sheet.fields.Distinct) (hread : sheet.read? s fuel = some last) :
    last.fields.Distinct := by
  induction fuel generalizing sheet s with
  | zero => cases hread
  | succ fuel ih =>
    unfold Sheet.read? at hread
    split at hread
    · exact Option.some.inj hread ▸ h
    · obtain ⟨⟨next, rest⟩, hline, hread⟩ := Option.bind_eq_some_iff.1 hread
      obtain ⟨rest', -, hread⟩ := Option.bind_eq_some_iff.1 hread
      exact ih (line?_distinct h hline) hread

/-- A document in TOML has distinct keys. -/
theorem read?_hasDistinctKeys {s : String} {d : Document} (h : read? s = some d) :
    d.HasDistinctKeys := by
  obtain ⟨sheet, hsheet, rfl⟩ := Option.map_eq_some_iff.1 h
  exact Sheet.read?_distinct .nil hsheet

end ConventionalRelease.Toml
