import ConventionalRelease.Proofs.Document.DistinctKeys
import ConventionalRelease.Yaml.Reader

/-!
# Distinct keys in YAML

Of the values of a key the last one counts, so no mapping that is read holds a key twice
(`read?_hasDistinctKeys`). The readers call each other with less and less fuel: what holds of all of
them with some fuel (`ReadersDistinct`) holds of each with one more.
-/

namespace ConventionalRelease.Yaml

open Document (HasDistinctKeys ReadsDistinctKeys)

/-- A scalar in plain style is a single value or none. -/
theorem plainDocument?_hasDistinctKeys {text : List Char} {d : Document}
    (h : plainDocument? text = some d) :
    d.HasDistinctKeys := by
  unfold plainDocument? at h
  split at h
  · exact Option.some.inj h ▸ .null
  · exact Option.some.inj h ▸ .null
  · exact Option.some.inj h ▸ .bool _
  · split at h
    · exact Option.some.inj h ▸ .int _
    · cases h
  · exact Option.some.inj h ▸ .real _
  · exact Option.some.inj h ▸ .text _

/-- With some fuel, all that is read has distinct keys if what was read before has them. -/
structure ReadersDistinct (fuel : Nat) : Prop where
  node : ∀ style tokens, ReadsDistinctKeys (node? fuel style tokens)
  optionalNode : ∀ style stops tokens, ReadsDistinctKeys (optionalNode? fuel style stops tokens)
  valueAfterKey : ∀ style stops tokens, ReadsDistinctKeys (valueAfterKey? fuel style stops tokens)
  sequence : ∀ items tokens, (∀ d ∈ items, d.HasDistinctKeys) →
    ReadsDistinctKeys (sequence? fuel items tokens)
  entries : ∀ items tokens, (∀ d ∈ items, d.HasDistinctKeys) →
    ReadsDistinctKeys (entries? fuel items tokens)
  mapping : ∀ fields tokens, (Document.mapping fields).HasDistinctKeys →
    ReadsDistinctKeys (mapping? fuel fields tokens)
  flowEntry : ∀ tokens, ReadsDistinctKeys <| flowEntry? fuel tokens
  flowSequence : ∀ first items tokens, (∀ d ∈ items, d.HasDistinctKeys) →
    ReadsDistinctKeys (flowSequence? fuel first items tokens)
  flowField : ∀ tokens key d rest, flowField? fuel tokens = some ((key, d), rest) →
    d.HasDistinctKeys
  flowMapping : ∀ first fields tokens, (Document.mapping fields).HasDistinctKeys →
    ReadsDistinctKeys (flowMapping? fuel first fields tokens)

namespace ReadersDistinct

variable {fuel : Nat} {first : Bool} {style : Style} {stops tokens : List Token}
  {items : List Document}
  {fields : List (String × Document)}

theorem node_succ (h : ReadersDistinct fuel) :
    ReadsDistinctKeys (node? (fuel + 1) style tokens) := by
  unfold node?
  split
  · split
    · intro d rest heq
      obtain ⟨_, hword, heq⟩ := Option.map_eq_some_iff.1 heq
      cases heq
      exact plainDocument?_hasDistinctKeys hword
    · exact .some (.text _) _
  · exact h.flowSequence _ _ _ nofun
  · exact h.flowMapping _ _ _ .nil
  · split
    · exact .none
    · exact h.sequence _ _ nofun
  · split
    · exact .none
    · exact h.mapping _ _ .nil
  · split
    · exact h.entries _ _ nofun
    · exact .none
  · exact .none

theorem optionalNode_succ (h : ReadersDistinct fuel) :
    ReadsDistinctKeys (optionalNode? (fuel + 1) style stops tokens) := by
  unfold optionalNode?
  split
  · exact .some .null _
  · exact h.node _ _

theorem valueAfterKey_succ (h : ReadersDistinct fuel) :
    ReadsDistinctKeys (valueAfterKey? (fuel + 1) style stops tokens) := by
  unfold valueAfterKey?
  split
  · exact h.optionalNode _ _ _
  · exact .some .null _

theorem sequence_succ (h : ReadersDistinct fuel) (hitems : ∀ d ∈ items, d.HasDistinctKeys) :
    ReadsDistinctKeys (sequence? (fuel + 1) items tokens) := by
  unfold sequence?
  split
  · exact (h.optionalNode _ _ _).bind fun d _ hd =>
      h.sequence _ _ (List.forall_mem_append.2 ⟨hitems, by simpa⟩)
  · exact .some (.list hitems) _
  · exact .none

theorem entries_succ (h : ReadersDistinct fuel) (hitems : ∀ d ∈ items, d.HasDistinctKeys) :
    ReadsDistinctKeys (entries? (fuel + 1) items tokens) := by
  unfold entries?
  split
  · exact (h.optionalNode _ _ _).bind fun d _ hd =>
      h.entries _ _ (List.forall_mem_append.2 ⟨hitems, by simpa⟩)
  · exact .some (.list hitems) _

theorem mapping_succ (h : ReadersDistinct fuel)
    (hfields : (Document.mapping fields).HasDistinctKeys) :
    ReadsDistinctKeys (mapping? (fuel + 1) fields tokens) := by
  unfold mapping?
  dsimp only
  split
  · exact .of_bind fun _ => (h.valueAfterKey _ _ _).bind fun d _ hd =>
      h.mapping _ _ (Document.hasDistinctKeys_put hfields hd)
  · exact .some hfields _
  · exact .none

theorem flowEntry_succ (h : ReadersDistinct fuel) :
    ReadsDistinctKeys <| flowEntry? (fuel + 1) tokens := by
  unfold flowEntry?
  split
  · exact .of_bind fun _ => (h.valueAfterKey _ _ _).bind fun d _ hd =>
      .some (.singleton hd) _
  · exact h.node _ _

theorem flowSequence_succ (h : ReadersDistinct fuel) (hitems : ∀ d ∈ items, d.HasDistinctKeys) :
    ReadsDistinctKeys (flowSequence? (fuel + 1) first items tokens) := by
  have hnext (tokens : List Token) : ReadsDistinctKeys <| flowEntry? fuel tokens >>= fun entry =>
      flowSequence? fuel false (items ++ [entry.1]) entry.2 :=
    (h.flowEntry _).bind fun d _ hd =>
      h.flowSequence _ _ _ (List.forall_mem_append.2 ⟨hitems, by simpa⟩)
  unfold flowSequence?
  split
  · exact .some (.list hitems) _
  · split
    · exact .none
    · split
      · exact h.flowSequence _ _ _ hitems
      · exact hnext _
  · split
    · exact hnext _
    · exact .none

theorem flowField_succ (h : ReadersDistinct fuel) {key : String} {d : Document} {rest : List Token}
    (hfield : flowField? (fuel + 1) tokens = some ((key, d), rest)) : d.HasDistinctKeys := by
  unfold flowField? at hfield
  split at hfield
  · obtain ⟨_, -, hfield⟩ := Option.bind_eq_some_iff.1 hfield
    obtain ⟨⟨value, rest'⟩, hvalue, hfield⟩ := Option.bind_eq_some_iff.1 hfield
    cases hfield
    exact h.valueAfterKey _ _ _ _ _ hvalue
  · obtain ⟨_, -, hfield⟩ := Option.bind_eq_some_iff.1 hfield
    cases hfield
    exact .null

theorem flowMapping_succ (h : ReadersDistinct fuel)
    (hfields : (Document.mapping fields).HasDistinctKeys) :
    ReadsDistinctKeys (flowMapping? (fuel + 1) first fields tokens) := by
  have hnext (tokens : List Token) : ReadsDistinctKeys (flowField? fuel tokens >>= fun field =>
      flowMapping? fuel false (Document.put field.1.1 field.1.2 fields) field.2) := by
    intro d rest heq
    obtain ⟨⟨⟨key, value⟩, rest'⟩, hfield, heq⟩ := Option.bind_eq_some_iff.1 heq
    exact h.flowMapping _ _ _
      (Document.hasDistinctKeys_put hfields (h.flowField _ _ _ _ hfield)) d rest heq
  unfold flowMapping?
  split
  · exact .some hfields _
  · split
    · exact .none
    · split
      · exact h.flowMapping _ _ _ hfields
      · exact hnext _
  · split
    · exact hnext _
    · exact .none

end ReadersDistinct

/-- With whatever fuel, all that is read has distinct keys. -/
theorem readersDistinct (fuel : Nat) : ReadersDistinct fuel := by
  induction fuel with
  | zero =>
    exact {
      node := fun _ _ => .none
      optionalNode := fun _ _ _ => .none
      valueAfterKey := fun _ _ _ => .none
      sequence := fun _ _ _ => .none
      entries := fun _ _ _ => .none
      mapping := fun _ _ _ => .none
      flowEntry := fun _ => .none
      flowSequence := fun _ _ _ _ => .none
      flowField := nofun
      flowMapping := fun _ _ _ _ => .none }
  | succ fuel ih =>
    exact {
      node := fun _ _ => ih.node_succ
      optionalNode := fun _ _ _ => ih.optionalNode_succ
      valueAfterKey := fun _ _ _ => ih.valueAfterKey_succ
      sequence := fun _ _ => ih.sequence_succ
      entries := fun _ _ => ih.entries_succ
      mapping := fun _ _ => ih.mapping_succ
      flowEntry := fun _ => ih.flowEntry_succ
      flowSequence := fun _ _ _ => ih.flowSequence_succ
      flowField := fun _ _ _ _ => ih.flowField_succ
      flowMapping := fun _ _ _ => ih.flowMapping_succ }

/-- A document in YAML has distinct keys. -/
theorem read?_hasDistinctKeys {s : String} {d : Document} (h : read? s = some d) :
    d.HasDistinctKeys := by
  obtain ⟨tokens, -, h⟩ := Option.bind_eq_some_iff.1 h
  have hlast {reading : Reading} (hreading : ReadsDistinctKeys reading)
      (hread :
        (reading >>= fun r => if r.2.all (· = .documentEnd) then some r.1 else none) = some d) :
      d.HasDistinctKeys := by
    obtain ⟨⟨document, rest⟩, hfirst, hread⟩ := Option.bind_eq_some_iff.1 hread
    dsimp only at hread
    split at hread
    · exact Option.some.inj hread ▸ hreading _ _ hfirst
    · cases hread
  have hreaders := readersDistinct (3 * tokens.length + 3)
  unfold ofTokens? at h
  dsimp only at h
  split at h
  · exact hlast (.some .null _) h
  · exact hlast (hreaders.optionalNode _ _ _) h
  · exact hlast (hreaders.optionalNode _ _ _) h
  · exact hlast (hreaders.node _ _) h

end ConventionalRelease.Yaml
