import ConventionalRelease.Document.Merge
import ConventionalRelease.Proofs.Dictionary

/-!
# What stands at a path of merged documents

A layer that leaves a path alone keeps what stands there (`Document.LeavesAlone.at?_merge`), and a
single value that a layer holds there takes the place of whatever was below
(`Document.at?_merge_of_isLeaf`). So of many layers the last that sets a single value decides, and
what a layer says nothing of is never lost (`Document.at?_mergeAll`).
-/

namespace ConventionalRelease.Document

/-- Whether the document is a single value or a list: neither `null` nor a mapping. -/
def isLeaf : Document → Bool
  | null => false
  | mapping _ => false
  | _ => true

/-- A document leaves a path alone: the way along the path stops at a `null`, or at a mapping
without the next key. -/
inductive LeavesAlone : Document → List String → Prop
  | atNull (path : List String) : LeavesAlone null path
  | atMissing {fields : List (String × Document)} {key : String} (rest : List String)
      (h : fields.lookup key = none) :
    LeavesAlone (mapping fields) (key :: rest)
  | further {fields : List (String × Document)} {key : String} {d : Document} {rest : List String}
    (h : fields.lookup key = some d) (hd : LeavesAlone d rest) :
      LeavesAlone (mapping fields) (key :: rest)

/-! ## The entries of a mapping -/

/-- What is adopted from a layer is the first value that is not `null` under a key that is not there
yet. -/
theorem lookup_adopt (fields layer : List (String × Document)) (key : String) :
    (adopt fields layer).lookup key =
      (fields.lookup key).or ((layer.filter (!·.2.isNull)).lookup key) := by
  induction layer generalizing fields with
  | nil => simp [adopt]
  | cons entry layer ih =>
    obtain ⟨other, value⟩ := entry
    rw [adopt]
    cases hnull : value.isNull with
    | true => simp [hnull, ih]
    | false =>
      cases hthere : fields.lookup other with
      | some old =>
        rw [if_pos (by simp), ih, List.filter_cons_of_pos (by simp [hnull]), lookup_cons]
        by_cases hkey : key = other
        · subst hkey
          simp [hthere]
        · rw [if_neg hkey]
      | none =>
        rw [if_neg (by simp), ih, List.filter_cons_of_pos (by simp [hnull]), List.lookup_append,
          lookup_cons, lookup_cons]
        by_cases hkey : key = other
        · subst hkey
          simp [hthere]
        · simp [hkey]

/-- What was there is merged with what the layer holds under its key. -/
theorem lookup_mergeFields (fields layer : List (String × Document)) (key : String) :
    (mergeFields fields layer).lookup key =
      (fields.lookup key).map fun value => ((layer.lookup key).map (merge value)).getD value := by
  induction fields with
  | nil => simp [mergeFields]
  | cons entry fields ih =>
    obtain ⟨other, value⟩ := entry
    rw [mergeFields, lookup_cons, lookup_cons, ih]
    by_cases hkey : key = other
    · subst hkey
      cases hchange : layer.lookup key <;> simp
    · simp [hkey]

/-- Under a key that is there, the value is merged with that of the layer, or kept if the layer has
none. -/
theorem lookup_merge_of_some {fields : List (String × Document)} (layer : List (String × Document))
    {key : String} {value : Document} (h : fields.lookup key = some value) :
    (adopt (mergeFields fields layer) layer).lookup key =
      some (((layer.lookup key).map (merge value)).getD value) := by
  rw [lookup_adopt, lookup_mergeFields, h]
  simp

/-- Under a key that is not there, the value of the layer is taken over as it stands. -/
theorem lookup_merge_of_none {fields layer : List (String × Document)} {key : String}
    {change : Document} (h : fields.lookup key = none) (hlayer : layer.lookup key = some change)
    (hnull : change.isNull = false) :
    (adopt (mergeFields fields layer) layer).lookup key = some change := by
  rw [lookup_adopt, lookup_mergeFields, h, Option.map_none, Option.none_or]
  obtain ⟨before, after, rfl, hbefore⟩ := List.lookup_eq_some_iff.1 hlayer
  refine List.lookup_eq_some_iff.2 ⟨before.filter (!·.2.isNull), after.filter (!·.2.isNull), ?_,
    fun e he => ?_⟩
  · simp [hnull]
  · exact hbefore e (List.mem_filter.1 he).1

/-! ## One layer -/

theorem merge_null (base : Document) : base.merge null = base := by
  cases base <;> simp [merge]

/-- A layer that is neither `null` nor a mapping over a mapping takes the place of what is below. -/
theorem merge_of_not_mapping {base layer : Document} (hnull : layer.isNull = false)
    (h : ∀ fields changes, base = mapping fields → layer ≠ mapping changes) :
    base.merge layer = layer := by
  cases layer with
  | null => cases hnull
  | mapping changes =>
    cases base with
    | mapping fields => exact absurd rfl (h fields changes rfl)
    | _ => simp [merge]
  | _ => cases base <;> simp [merge]

/-- A document that leads along a path that is not at its end is a mapping with the next key. -/
theorem at?_cons_eq_some {d found : Document} {key : String} {rest : List String} :
    d.at? (key :: rest) = some found ↔
      ∃ fields value, d = mapping fields ∧ fields.lookup key = some value ∧
        value.at? rest = some found := by
  constructor
  · intro h
    cases d with
    | mapping fields =>
      rw [at?] at h
      obtain ⟨value, hvalue, hrest⟩ := Option.bind_eq_some_iff.1 h
      exact ⟨fields, value, rfl, hvalue, hrest⟩
    | _ => simp [at?] at h
  · rintro ⟨fields, value, rfl, hvalue, hrest⟩
    rw [at?, hvalue, Option.bind_some, hrest]

/-- A document that leads to a single value is not `null`. -/
theorem isNull_of_at?_eq_leaf {d leaf : Document} {path : List String} (h : d.at? path = some leaf)
    (hleaf : leaf.isLeaf = true) : d.isNull = false := by
  cases d with
  | null =>
    cases path with
    | nil =>
      cases h
      cases hleaf
    | cons key rest => simp [at?] at h
  | _ => rfl

/-- A layer that leaves a path alone keeps what stands there. -/
theorem LeavesAlone.at?_merge {base layer found : Document} {path : List String}
    (h : layer.LeavesAlone path) (hbase : base.at? path = some found) :
    (base.merge layer).at? path = some found := by
  induction h generalizing base with
  | atNull path => rw [merge_null, hbase]
  | @atMissing changes _ rest hmissing =>
    obtain ⟨fields, value, rfl, hvalue, hrest⟩ := at?_cons_eq_some.1 hbase
    have hkept := lookup_merge_of_some changes hvalue
    rw [hmissing] at hkept
    rw [merge]
    exact at?_cons_eq_some.2 ⟨_, value, rfl, hkept, hrest⟩
  | @further changes _ _ _ hchange hd ih =>
    obtain ⟨fields, value, rfl, hvalue, hrest⟩ := at?_cons_eq_some.1 hbase
    have hmerged := lookup_merge_of_some changes hvalue
    rw [hchange] at hmerged
    rw [merge]
    exact at?_cons_eq_some.2 ⟨_, _, rfl, hmerged, ih hrest⟩

/-- A single value that a layer holds at a path takes the place of whatever was below. -/
theorem at?_merge_of_isLeaf {layer leaf : Document} {path : List String}
    (h : layer.at? path = some leaf) (hleaf : leaf.isLeaf = true) (base : Document) :
    (base.merge layer).at? path = some leaf := by
  induction path generalizing base layer with
  | nil =>
    have hnull := isNull_of_at?_eq_leaf h hleaf
    cases h
    rw [merge_of_not_mapping hnull]
    · rfl
    · rintro _ changes - rfl
      cases hleaf
  | cons key rest ih =>
    obtain ⟨changes, change, rfl, hchange, hrest⟩ := at?_cons_eq_some.1 h
    cases base with
    | mapping fields =>
      rw [merge]
      cases hvalue : fields.lookup key with
      | some value =>
        have hmerged := lookup_merge_of_some changes hvalue
        rw [hchange] at hmerged
        exact at?_cons_eq_some.2 ⟨_, _, rfl, hmerged, ih hrest value⟩
      | none =>
        have hnull := isNull_of_at?_eq_leaf hrest hleaf
        exact at?_cons_eq_some.2 ⟨_, _, rfl, lookup_merge_of_none hvalue hchange hnull, hrest⟩
    | _ => exact h

/-! ## All layers -/

/-- Layers that leave a path alone keep what stands there. -/
theorem at?_mergeAll_of_leavesAlone {base found : Document} {layers : List Document}
    {path : List String} (h : ∀ layer ∈ layers, layer.LeavesAlone path)
    (hbase : base.at? path = some found) :
    (base.mergeAll layers).at? path = some found := by
  induction layers generalizing base with
  | nil => exact hbase
  | cons layer layers ih =>
    obtain ⟨hlayer, hlayers⟩ := List.forall_mem_cons.1 h
    exact ih hlayers (hlayer.at?_merge hbase)

theorem mergeAll_append (base : Document) (lower upper : List Document) :
    base.mergeAll (lower ++ upper) = (base.mergeAll lower).mergeAll upper :=
  List.foldl_append

/-- Whatever is below, the last layer that holds a single value at a path decides what stands there,
if those over it leave the path alone. And what the base or the lower layers have brought to a path
is kept by layers that leave it alone. -/
theorem at?_mergeAll (base : Document) (path : List String) :
    (∀ lower layer upper leaf, layer.at? path = some leaf → leaf.isLeaf = true →
      (∀ later ∈ upper, later.LeavesAlone path) →
        (base.mergeAll (lower ++ layer :: upper)).at? path = some leaf) ∧
      ∀ lower upper found, (base.mergeAll lower).at? path = some found →
        (∀ later ∈ upper, later.LeavesAlone path) →
          (base.mergeAll (lower ++ upper)).at? path = some found := by
  have hkept : ∀ lower upper found, (base.mergeAll lower).at? path = some found →
      (∀ later ∈ upper, later.LeavesAlone path) →
        (base.mergeAll (lower ++ upper)).at? path = some found := by
    intro lower upper found hfound hupper
    rw [mergeAll_append]
    exact at?_mergeAll_of_leavesAlone hupper hfound
  refine ⟨fun lower layer upper leaf hlayer hleaf hupper => ?_, hkept⟩
  have hset : (base.mergeAll (lower ++ [layer])).at? path = some leaf := by
    rw [mergeAll_append]
    exact at?_merge_of_isLeaf hlayer hleaf _
  rw [List.append_cons]
  exact hkept _ upper leaf hset hupper

/-- Of two files that name tags the later one decides on the pattern, but not on the filter, which
it leaves empty, and a third file that says nothing of tags takes nothing back. What none of them
sets stays. -/
theorem at?_mergeAll_threeFiles :
    let base :=
  mapping [("version", text "1.1"), ("tag", mapping [("pattern", text "v0"), ("filter", text "")])]
    let first := mapping [("tag", mapping [("pattern", text "v1"), ("filter", text "v*")])]
    let second := mapping [("tag", mapping [("pattern", text "v2"), ("filter", null)])]
    let third := mapping [("tag", null), ("branches", mapping [])]
    (∀ later ∈ [third], later.LeavesAlone ["tag", "pattern"]) ∧
      (base.mergeAll [first, second, third]).at? ["tag", "pattern"] = some (text "v2") ∧
      (∀ later ∈ [second, third], later.LeavesAlone ["tag", "filter"]) ∧
      (base.mergeAll [first, second, third]).at? ["tag", "filter"] = some (text "v*") ∧
      (∀ later ∈ [first, second, third], later.LeavesAlone ["version"]) ∧
      (base.mergeAll [first, second, third]).at? ["version"] = some (text "1.1") := by
  intro base first second third
  have hpattern : ∀ later ∈ [third], later.LeavesAlone ["tag", "pattern"] :=
    List.forall_mem_singleton.2 (.further rfl (.atNull _))
  have hfilter : ∀ later ∈ [second, third], later.LeavesAlone ["tag", "filter"] :=
    List.forall_mem_cons.2 ⟨.further rfl (.further rfl (.atNull _)),
      List.forall_mem_singleton.2 (.further rfl (.atNull _))⟩
  have hversion : ∀ later ∈ [first, second, third], later.LeavesAlone ["version"] :=
    List.forall_mem_cons.2 ⟨.atMissing _ rfl,
      List.forall_mem_cons.2 ⟨.atMissing _ rfl, List.forall_mem_singleton.2 (.atMissing _ rfl)⟩⟩
  exact ⟨hpattern,
    (at?_mergeAll base ["tag", "pattern"]).1 [first] second [third] _ rfl rfl hpattern, hfilter,
    (at?_mergeAll base ["tag", "filter"]).1 [] first [second, third] _ rfl rfl hfilter, hversion,
    (at?_mergeAll base ["version"]).2 [] [first, second, third] _ rfl hversion⟩

end ConventionalRelease.Document
