import ConventionalRelease.Proofs.Document.Merge

/-!
# Documents with distinct keys

In a document with distinct keys no mapping holds a key twice, at whatever depth
(`Document.HasDistinctKeys`). Merged over itself such a document stays as it is
(`HasDistinctKeys.merge_self`), and as a layer it changes nothing when it is put on a second time
(`HasDistinctKeys.merge_merge`): what the layer was merged into has already what the layer brings,
and what was taken over from the layer is merged with itself. Entries that are put into a mapping
leave its keys distinct (`hasDistinctKeys_put`), so readers that put in one entry after the other
read documents with distinct keys.
-/

namespace ConventionalRelease.Document

/-- A document in which no mapping holds a key twice. -/
inductive HasDistinctKeys : Document → Prop
  | null : HasDistinctKeys null
  | bool (b : Bool) : HasDistinctKeys (bool b)
  | int (n : Int) : HasDistinctKeys (int n)
  | real (numeral : String) : HasDistinctKeys (real numeral)
  | text (s : String) : HasDistinctKeys (text s)
  | list {items : List Document} (h : ∀ d ∈ items, HasDistinctKeys d) : HasDistinctKeys (list items)
  | mapping {fields : List (String × Document)} (hkeys : (fields.map (·.1)).Nodup)
    (h : ∀ f ∈ fields, HasDistinctKeys f.2) : HasDistinctKeys (mapping fields)

variable {fields layer : List (String × Document)} {entry : String × Document} {key : String}
  {value : Document}

/-! ## The entries of a layer that is on -/

/-- Every entry is an entry of what was there, or of the layer. -/
theorem of_mem_adopt (h : entry ∈ adopt fields layer) : entry ∈ fields ∨ entry ∈ layer := by
  induction layer generalizing fields with
  | nil => exact .inl h
  | cons first layer ih =>
    obtain ⟨key, value⟩ := first
    rw [adopt] at h
    split at h
    · exact (ih h).imp_right (List.mem_cons_of_mem _)
    · rcases ih h with h | h
      · rcases List.mem_append.1 h with h | h
        · exact .inl h
        · exact .inr (List.mem_singleton.1 h ▸ List.mem_cons_self)
      · exact .inr (List.mem_cons_of_mem _ h)

/-- Every entry is one that was there, merged with what the layer holds under its key. -/
theorem of_mem_mergeFields (h : entry ∈ mergeFields fields layer) :
    ∃ value, entry.2 = ((layer.lookup entry.1).map (merge value)).getD value := by
  induction fields with
  | nil => cases h
  | cons first fields ih =>
    obtain ⟨key, value⟩ := first
    rw [mergeFields] at h
    rcases List.mem_cons.1 h with rfl | h
    · refine ⟨value, ?_⟩
      cases layer.lookup key <;> rfl
    · exact ih h

/-- A layer has no effect on entries that its values do not change. -/
theorem mergeFields_eq_self
    (h : ∀ e ∈ fields, ∀ change, layer.lookup e.1 = some change → e.2.merge change = e.2) :
    mergeFields fields layer = fields := by
  induction fields with
  | nil => rw [mergeFields]
  | cons first fields ih =>
    obtain ⟨key, value⟩ := first
    obtain ⟨hfirst, hrest⟩ := List.forall_mem_cons.1 h
    rw [mergeFields, ih hrest]
    cases hchange : layer.lookup key with
    | none => rfl
    | some change => exact congrArg (fun value => (key, value) :: fields) (hfirst change hchange)

/-- Nothing is adopted of a layer whose keys are there, those without a value aside. -/
theorem adopt_eq_self (h : ∀ e ∈ layer, e.2.isNull = false → (fields.lookup e.1).isSome = true) :
    adopt fields layer = fields := by
  induction layer with
  | nil => rw [adopt]
  | cons first layer ih =>
    obtain ⟨key, value⟩ := first
    obtain ⟨hfirst, hrest⟩ := List.forall_mem_cons.1 h
    have hskip : (value.isNull || (fields.lookup key).isSome) = true := by
      cases hnull : value.isNull with
      | true => rfl
      | false => exact hfirst hnull
    rw [adopt, if_pos hskip, ih hrest]

/-- Every key of a layer is there once the layer is on, those without a value aside. -/
theorem isSome_lookup_adopt (h : entry ∈ layer) (hnull : entry.2.isNull = false) :
    ((adopt fields layer).lookup entry.1).isSome = true := by
  have hlayer : ((layer.filter (!·.2.isNull)).lookup entry.1).isSome = true :=
    List.lookup_isSome_iff.2 ⟨entry, List.mem_filter.2 ⟨h, by simp [hnull]⟩, beq_self_eq_true _⟩
  rw [lookup_adopt, Option.isSome_or, hlayer, Bool.or_true]

/-! ## A layer that is put on again -/

/-- A single value or a list takes the place of whatever is below. -/
theorem merge_of_isLeaf {leaf : Document} (h : leaf.isLeaf = true) (base : Document) :
    base.merge leaf = leaf := by
  have hself : leaf.at? [] = some leaf := rfl
  refine merge_of_not_mapping (isNull_of_at?_eq_leaf hself h) ?_
  rintro _ changes - rfl
  cases h

namespace HasDistinctKeys

/-- A document merged over itself stays as it is. -/
theorem merge_self {d : Document} (h : d.HasDistinctKeys) : d.merge d = d := by
  induction h with
  | null => exact merge_null _
  | @mapping fields hkeys _ ih =>
    have hsame : mergeFields fields fields = fields := by
      refine mergeFields_eq_self fun e he change hchange => ?_
      rw [(Dictionary.lookup_eq_some_iff_mem hkeys).2 he] at hchange
      rw [← Option.some.inj hchange]
      exact ih e he
    rw [merge, hsame, adopt_eq_self fun e he _ =>
      List.lookup_isSome_iff.2 ⟨e, he, beq_self_eq_true _⟩]
  | _ => exact merge_of_isLeaf rfl _

/-- A layer that is put on a second time changes nothing. -/
theorem merge_merge {layer : Document} (h : layer.HasDistinctKeys) (base : Document) :
    (base.merge layer).merge layer = base.merge layer := by
  induction h generalizing base with
  | null => rw [merge_null, merge_null]
  | @mapping changes hkeys hvalues ih =>
    cases base with
    | mapping fields =>
      have hmerged : mergeFields (adopt (mergeFields fields changes) changes) changes =
          adopt (mergeFields fields changes) changes := by
        refine mergeFields_eq_self fun e he change hchange => ?_
        rcases of_mem_adopt he with he | he
        · -- the value was merged with this change before
          obtain ⟨value, hvalue⟩ := of_mem_mergeFields he
          rw [hvalue, hchange]
          exact ih _ (mem_of_lookup hchange) value
        · -- the value is the change itself
          rw [(Dictionary.lookup_eq_some_iff_mem hkeys).2 he] at hchange
          rw [← Option.some.inj hchange]
          exact (hvalues e he).merge_self
      rw [merge, merge, hmerged, adopt_eq_self fun e he hnull => isSome_lookup_adopt he hnull]
    | _ => exact (mapping hkeys hvalues).merge_self
  | _ => rw [merge_of_isLeaf rfl, merge_of_isLeaf rfl]

/-! ## Entries that are put in -/

/-- What a mapping with distinct keys holds has distinct keys. -/
theorem of_mapping (h : (Document.mapping fields).HasDistinctKeys) :
    (fields.map (·.1)).Nodup ∧ ∀ f ∈ fields, f.2.HasDistinctKeys := by
  cases h with
  | mapping hkeys hvalues => exact ⟨hkeys, hvalues⟩

/-- A mapping without entries. -/
theorem nil : (Document.mapping []).HasDistinctKeys :=
  mapping List.nodup_nil nofun

/-- A mapping with an entry whose key was not there. -/
theorem concat (h : (Document.mapping fields).HasDistinctKeys) (hkey : key ∉ fields.map (·.1))
    (hvalue : value.HasDistinctKeys) :
    (Document.mapping (fields ++ [(key, value)])).HasDistinctKeys := by
  obtain ⟨hkeys, hvalues⟩ := h.of_mapping
  refine mapping ?_ fun f hf => ?_
  · rw [List.map_append]
    refine List.nodup_append.2 ⟨hkeys, List.nodup_singleton key, fun a ha b hb hab => ?_⟩
    obtain rfl : b = key := List.mem_singleton.1 hb
    exact hkey (hab ▸ ha)
  · rcases List.mem_append.1 hf with hf | hf
    · exact hvalues f hf
    · rw [List.mem_singleton.1 hf]
      exact hvalue

/-- A mapping with one entry. -/
theorem singleton (h : value.HasDistinctKeys) : (Document.mapping [(key, value)]).HasDistinctKeys :=
  nil.concat (by simp) h

end HasDistinctKeys

/-- A value that is put in is the value of its key, and the other entries stay. -/
theorem of_mem_put (h : entry ∈ put key value fields) : entry = (key, value) ∨ entry ∈ fields := by
  induction fields with
  | nil => exact .inl (List.mem_singleton.1 h)
  | cons first fields ih =>
    obtain ⟨other, old⟩ := first
    rw [put] at h
    split at h
    · exact (List.mem_cons.1 h).imp_right (List.mem_cons_of_mem _)
    · rcases List.mem_cons.1 h with rfl | h
      · exact .inr List.mem_cons_self
      · exact (ih h).imp_right (List.mem_cons_of_mem _)

/-- A value that is put in leaves the keys distinct. -/
theorem nodup_put (h : (fields.map (·.1)).Nodup) : ((put key value fields).map (·.1)).Nodup := by
  induction fields with
  | nil => exact List.nodup_singleton key
  | cons first fields ih =>
    obtain ⟨other, old⟩ := first
    obtain ⟨hother, hrest⟩ := List.nodup_cons.1 h
    rw [put]
    split
    · next heq => exact heq ▸ h
    · next hne =>
      refine List.nodup_cons.2 ⟨fun hmem => ?_, ih hrest⟩
      obtain ⟨e, he, hname⟩ := List.mem_map.1 hmem
      rcases of_mem_put he with rfl | he
      · exact hne hname.symm
      · exact hother (List.mem_map.2 ⟨e, he, hname⟩)

theorem hasDistinctKeys_put (h : (mapping fields).HasDistinctKeys)
    (hvalue : value.HasDistinctKeys) :
    (mapping (put key value fields)).HasDistinctKeys := by
  obtain ⟨hkeys, hvalues⟩ := h.of_mapping
  refine .mapping (nodup_put hkeys) fun f hf => ?_
  rcases of_mem_put hf with rfl | hf
  · exact hvalue
  · exact hvalues f hf

/-! ## Readers -/

/-- What is read at the front of something, if anything is, is a document with distinct keys. -/
def ReadsDistinctKeys {τ : Type} (reading : Option (Document × τ)) : Prop :=
  ∀ d rest, reading = some (d, rest) → d.HasDistinctKeys

namespace ReadsDistinctKeys

variable {τ : Type}

theorem none : ReadsDistinctKeys (none : Option (Document × τ)) := nofun

theorem some {d : Document} (h : d.HasDistinctKeys) (rest : τ) :
    ReadsDistinctKeys (some (d, rest)) := by
  intro _ _ heq
  cases heq
  exact h

/-- A reading that goes on from another one. -/
theorem bind {σ : Type} {reading : Option (Document × σ)}
    {next : Document × σ → Option (Document × τ)} (h : ReadsDistinctKeys reading)
    (hnext : ∀ d rest, d.HasDistinctKeys → ReadsDistinctKeys (next (d, rest))) :
    ReadsDistinctKeys (reading >>= next) := by
  intro d rest heq
  obtain ⟨⟨d', rest'⟩, hread, heq⟩ := Option.bind_eq_some_iff.1 heq
  exact hnext d' rest' (h d' rest' hread) d rest heq

/-- A reading that goes on from something else. -/
theorem of_bind {α : Type} {x : Option α} {next : α → Option (Document × τ)}
    (hnext : ∀ a, ReadsDistinctKeys (next a)) : ReadsDistinctKeys (x >>= next) := by
  intro d rest heq
  obtain ⟨a, -, heq⟩ := Option.bind_eq_some_iff.1 heq
  exact hnext a d rest heq

end ReadsDistinctKeys

end ConventionalRelease.Document
