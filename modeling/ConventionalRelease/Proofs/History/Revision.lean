import ConventionalRelease.History.Range
import ConventionalRelease.History.Tags
import ConventionalRelease.Proofs.Attempt
import ConventionalRelease.Proofs.Dictionary
import ConventionalRelease.Proofs.Text.Fronts
import ConventionalRelease.Proofs.Text.Pieces
import ConventionalRelease.Text.Numeral

/-!
# What revisions stand for

In a linear repository (`Repository.IsLinear`) whatever a revision stands for is a commit on the
trunk (`IsLinear.revision_isOn`). What is checked out is `HEAD` (`HasHashes.resolve_head`). The name
of a tag stands for something (`HasTagNames.exists_revision?`), but not always for what is tagged:
it does if nothing else has the name (`resolve_tag`). And what it stands for need not lead to a
commit (`HasTagNames.resolve_eq_error`).
-/

namespace ConventionalRelease

namespace Repository

/-! ## Linear repositories -/

/-- Whether a commit is on a trunk. -/
def IsOn (trunk : Lineage) (descent : Descent) : Prop :=
  descent.lineage <:+ trunk

instance (trunk : Lineage) (descent : Descent) : Decidable (IsOn trunk descent) :=
  inferInstanceAs (Decidable (_ <:+ _))

/-- Whether a text is written in hexadecimal digits. -/
def isHexadecimal (s : String) : Bool :=
  s.toList.all fun d => (hexDigit? d).isSome

/-- A repository whose commits are based on each other in one line: all of them are on the trunk,
and so are the branches, the tags, each of which leads to a commit, and what is checked out without
a branch. No commit is based on itself, hashes are written in hexadecimal digits, and the tags have
distinct names that tags can have. -/
structure IsLinear (r : Repository) (trunk : Lineage) : Prop where
  nodup : trunk.Nodup
  hashes : ∀ c ∈ trunk, isHexadecimal c.hash = true
  commits : ∀ descent ∈ r.commits, IsOn trunk descent
  branches : ∀ branch ∈ r.branches, IsOn trunk branch.2
  tags : ∀ tag ∈ r.tags, ∃ descent ∈ tag.2.descent?, IsOn trunk descent
  detached : ∀ descent, r.head = .detached descent → IsOn trunk descent
  names : ∀ tag ∈ r.tags, isTagName tag.1 = true
  distinct : (r.tags.map (·.1)).Nodup

variable {r : Repository} {trunk : Lineage}

/-- A revision leads to the commit that what it stands for leads to. -/
theorem resolve_eq_ok {text : String} {descent : Descent} : r.resolve text = .ok descent ↔
    ∃ found, r.revision? text = some found ∧ found.descent? = some descent := by
  rw [resolve]
  cases r.revision? text with
  | none => simp
  | some found => cases hleads : found.descent? <;> simp [hleads]

/-- A revision that stands for something fails only in leading to no commit. -/
theorem resolve_eq_error {text : String} {found : Tagged} (h : r.revision? text = some found)
    {e : HistoryError} : r.resolve text = .error e ↔ found.descent? = none ∧ e = .refused := by
  rw [resolve, h]
  cases hleads : found.descent? <;> simp [hleads, eq_comm]

/-- What is checked out is on the trunk. -/
theorem IsLinear.head (h : r.IsLinear trunk) {descent : Descent} (hhead : r.head? = some descent) :
    IsOn trunk descent := by
  unfold head? at hhead
  split at hhead
  · exact h.branches _ (mem_of_lookup hhead)
  · next hdetached =>
    cases hhead
    exact h.detached _ hdetached

/-- What has a full name is a commit on the trunk. -/
theorem IsLinear.reference (h : r.IsLinear trunk) {name : String} {found : Tagged}
    (hfound : r.reference? name = some found) : ∃ descent ∈ found.descent?, IsOn trunk descent := by
  unfold reference? at hfound
  split at hfound
  · obtain ⟨descent, hdescent, rfl⟩ := Option.map_eq_some_iff.1 hfound
    exact ⟨descent, rfl, h.head hdescent⟩
  · split at hfound
    · exact h.tags _ (mem_of_lookup hfound)
    · split at hfound
      · obtain ⟨descent, hdescent, rfl⟩ := Option.map_eq_some_iff.1 hfound
        exact ⟨descent, rfl, h.branches _ (mem_of_lookup hdescent)⟩
      · cases hfound

/-- What has a hash or a name is a commit on the trunk. -/
theorem IsLinear.named (h : r.IsLinear trunk) {name : String} {found : Tagged}
    (hfound : r.named? name = some found) : ∃ descent ∈ found.descent?, IsOn trunk descent := by
  unfold named? at hfound
  split at hfound
  · next descent hdescent =>
    cases hfound
    exact ⟨descent, rfl, h.commits _ (List.mem_of_find?_eq_some hdescent)⟩
  · obtain ⟨full, -, hfull⟩ := List.exists_of_findSome?_eq_some hfound
    exact h.reference hfull

/-- What is some generations back is a commit on the trunk. -/
theorem IsLinear.generation (h : r.IsLinear trunk) {text : String} {found : Tagged}
    (hfound : r.generation? text = some found) :
    ∃ descent ∈ found.descent?, IsOn trunk descent := by
  obtain ⟨base, hbase, hfound⟩ := Option.bind_eq_some_iff.1 hfound
  have hnamed := h.named hbase
  split at hfound
  · cases hfound
    exact hnamed
  · obtain ⟨n, -, hfound⟩ := Option.bind_eq_some_iff.1 hfound
    obtain ⟨newest, hnewest, hfound⟩ := Option.bind_eq_some_iff.1 hfound
    obtain ⟨older, holder, hfound⟩ := Option.bind_eq_some_iff.1 hfound
    cases hfound
    obtain ⟨descent, hdescent, hon⟩ := hnamed
    obtain rfl : descent = newest := Option.some.inj (hdescent.symm.trans hnewest)
    refine ⟨older, rfl, ?_⟩
    rw [IsOn, Descent.ofLineage?_eq_some.1 holder]
    exact (List.drop_suffix n _).trans hon

/-- Whatever a revision stands for is a commit on the trunk. -/
theorem IsLinear.revision_isOn (h : r.IsLinear trunk) {text : String} {found : Tagged}
    (hfound : r.revision? text = some found) : ∃ descent ∈ found.descent?, IsOn trunk descent :=
  h.generation hfound

/-- The commit that a revision leads to is on the trunk. -/
theorem IsLinear.resolve_isOn (h : r.IsLinear trunk) {text : String} {descent : Descent}
    (hdescent : r.resolve text = .ok descent) : IsOn trunk descent := by
  obtain ⟨found, hfound, hleads⟩ := resolve_eq_ok.1 hdescent
  obtain ⟨other, hother, hon⟩ := h.revision_isOn hfound
  obtain rfl : other = descent := Option.some.inj (hother.symm.trans hleads)
  exact hon

/-! ## Names -/

/-- Without marks, it is the hash or the name. -/
theorem generation?_of_not_mem {name : String} (h : '~' ∉ name.toList) :
    r.generation? name = r.named? name := by
  have hbase : name.toList.takeWhile (fun c => decide (c ≠ '~')) = name.toList := by
    have hchars : ∀ c ∈ name.toList, decide (c ≠ '~') = true := fun c hc =>
      decide_eq_true fun e => h (e ▸ hc)
    simpa only [List.append_nil] using Text.takeWhile_append_of_stops hchars Text.stops_nil
  unfold generation?
  simp only [hbase, List.drop_length, List.isEmpty_nil, if_true, String.ofList_toList]
  cases r.named? name <;> rfl

/-- A revision without marks that is no `@` is a hash or a name. -/
theorem revision?_of_not_mem {name : String} (h : '~' ∉ name.toList) (hhead : name ≠ "@") :
    r.revision? name = r.named? name := by
  rw [revision?, if_neg hhead, generation?_of_not_mem h]

/-- No commit has the name as its hash. -/
def IsNoHash (r : Repository) (name : String) : Prop :=
  ∀ descent ∈ r.commits, descent.newest.hash ≠ name

/-- What is no hash is a full name, or short for one. -/
theorem named?_of_isNoHash {name : String} (h : r.IsNoHash name) :
    r.named? name = (fullNames name).findSome? r.reference? := by
  have hfind : r.commits.find? (·.newest.hash = name) = none :=
    List.find?_eq_none.2 fun descent hdescent hname =>
      h descent hdescent (of_decide_eq_true hname)
  rw [named?, hfind]

/-- Hashes are written in hexadecimal digits. -/
def HasHashes (r : Repository) : Prop :=
  ∀ descent ∈ r.commits, isHexadecimal descent.newest.hash = true

/-- What holds a character that is no hexadecimal digit is no hash. -/
theorem HasHashes.isNoHash (h : r.HasHashes) {name : String} {d : Char} (hd : d ∈ name.toList)
    (hdigit : hexDigit? d = none) : r.IsNoHash name := by
  rintro descent hdescent rfl
  have := List.all_eq_true.1 (h descent hdescent) d hd
  rw [hdigit] at this
  cases this

/-- What is checked out is the commit `HEAD`. -/
theorem HasHashes.revision?_head (h : r.HasHashes) {descent : Descent}
    (hhead : r.head? = some descent) : r.revision? "HEAD" = some (.commit descent) := by
  have hhash : r.IsNoHash "HEAD" := h.isNoHash (d := 'H') (by decide) (by decide)
  rw [revision?_of_not_mem (by decide) (by decide), named?_of_isNoHash hhash, fullNames,
    List.findSome?_cons, reference?, if_pos rfl, hhead]
  rfl

/-- The commit `HEAD` is what is checked out. -/
theorem HasHashes.resolve_head (h : r.HasHashes) {descent : Descent}
    (hhead : r.head? = some descent) : r.resolve "HEAD" = .ok descent :=
  resolve_eq_ok.2 ⟨.commit descent, h.revision?_head hhead, rfl⟩

/-- The commits of a linear repository have hashes. -/
theorem IsLinear.hasHashes (h : r.IsLinear trunk) : r.HasHashes := fun descent hdescent =>
  h.hashes descent.newest ((h.commits descent hdescent).subset List.mem_cons_self)

/-! ## Names of tags -/

/-- The commit that the tag with the name was put on, with those it is based on; nothing if it was
put on no commit. -/
def tagged (r : Repository) (name : String) : Lineage :=
  (((r.tags.lookup name).bind Tagged.descent?).map Descent.lineage).getD []

/-- The name of a tag holds no mark of a revision. -/
theorem not_mem_of_isTagName {name : String} (h : isTagName name = true) : '~' ∉ name.toList := by
  intro hmem
  rw [isTagName, Bool.and_eq_true, Bool.and_eq_true, List.all_eq_true] at h
  have hchar (c : Char) (hc : c ∈ name.toList) : (c = '/' || isNameCharacter c) = true := by
    rw [← Text.join_splitAt '/' name.toList] at hc
    refine Text.all_join (p := fun c => c = '/' || isNameCharacter c) (by simp)
      (fun s hs c hc => ?_) c hc
    have hpart := h.1.1 s hs
    simp only [isNamePart, Bool.and_eq_true, List.all_eq_true] at hpart
    simp [hpart.1.1.1.2 c hc]
  exact absurd (hchar '~' hmem) (by decide)

/-- The name of a tag is not empty. -/
theorem ne_empty_of_isTagName {name : String} (h : isTagName name = true) : name ≠ "" := by
  rintro rfl
  revert h
  decide

/-- The full name of a tag stands for what is tagged. -/
theorem reference?_tagSpace (name : String) :
    r.reference? (tagSpace ++ name) = r.tags.lookup name := by
  have hne : tagSpace ++ name ≠ "HEAD" := fun h => by
    have := congrArg String.toList h
    rw [String.toList_append] at this
    exact absurd (List.cons.inj this).1 (by decide)
  have hafter : Text.after? tagSpace.toList (tagSpace ++ name).toList = some name.toList := by
    rw [String.toList_append, Text.after?_append]
  rw [reference?, if_neg hne, hafter]
  simp only [String.ofList_toList]

/-- The tags have distinct names that tags can have. -/
structure HasTagNames (r : Repository) : Prop where
  names : ∀ tag ∈ r.tags, isTagName tag.1 = true
  distinct : (r.tags.map (·.1)).Nodup

/-- The tags of a linear repository have such names. -/
theorem IsLinear.hasTagNames (h : r.IsLinear trunk) : r.HasTagNames :=
  ⟨h.names, h.distinct⟩

/-- A name stands for something if it is short for the name of something. -/
theorem exists_named? {name full : String} (hfull : full ∈ fullNames name) {found : Tagged}
    (hfound : r.reference? full = some found) : ∃ other, r.named? name = some other := by
  unfold named?
  split
  · exact ⟨_, rfl⟩
  · exact Option.isSome_iff_exists.1
      (List.findSome?_isSome_iff.2 ⟨full, hfull, Option.isSome_iff_exists.2 ⟨found, hfound⟩⟩)

/-- The name of a tag stands for something, but for `@`, which does so where a commit is checked
out. -/
theorem HasTagNames.exists_revision? (h : r.HasTagNames) {tag : String × Tagged}
    (htag : tag ∈ r.tags) (hhead : tag.1 = "@" → r.hasCommits = true) :
    ∃ found, r.revision? tag.1 = some found := by
  by_cases hat : tag.1 = "@"
  · obtain ⟨descent, hdescent⟩ := Option.isSome_iff_exists.1 (hhead hat)
    have hfound : r.reference? "HEAD" = some (.commit descent) := by
      rw [reference?, if_pos rfl, hdescent]
      rfl
    rw [revision?, if_pos hat, generation?_of_not_mem (by decide)]
    exact exists_named? List.mem_cons_self hfound
  · obtain ⟨found, hfound⟩ := Option.isSome_iff_exists.1
      (List.lookup_isSome_iff.2 ⟨tag, htag, beq_self_eq_true tag.1⟩)
    rw [revision?_of_not_mem (not_mem_of_isTagName (h.names tag htag)) hat]
    exact exists_named? (by simp [fullNames]) ((reference?_tagSpace tag.1).trans hfound)

/-- Where a commit is checked out, the name of a tag leads to a commit, or it stands for what leads
to none. -/
theorem HasTagNames.resolve_eq_error (h : r.HasTagNames) (hhead : r.hasCommits = true)
    {tag : String × Tagged} (htag : tag ∈ r.tags) {e : HistoryError}
    (he : r.resolve tag.1 = .error e) : e = .refused := by
  obtain ⟨found, hfound⟩ := h.exists_revision? htag fun _ => hhead
  exact ((Repository.resolve_eq_error hfound).1 he).2

/-- In a linear repository the name of a tag leads to a commit. -/
theorem IsLinear.resolve_tagName (h : r.IsLinear trunk) {tag : String × Tagged}
    (htag : tag ∈ r.tags) (hhead : tag.1 = "@" → r.hasCommits = true) :
    ∃ descent, r.resolve tag.1 = .ok descent := by
  obtain ⟨found, hfound⟩ := h.hasTagNames.exists_revision? htag hhead
  obtain ⟨descent, hdescent, -⟩ := h.revision_isOn hfound
  exact ⟨descent, resolve_eq_ok.2 ⟨found, hfound, hdescent⟩⟩

/-- The name of a tag stands for what is tagged, unless it is a hash or something else has the
name. -/
theorem resolve_tag {name : String} {found : Tagged} {descent : Descent}
    (hmark : '~' ∉ name.toList) (hhead : name ≠ "@") (hhash : r.IsNoHash name)
    (hfull : r.reference? name = none) (hshort : r.reference? ("refs/" ++ name) = none)
    (hfound : r.tags.lookup name = some found) (hdescent : found.descent? = some descent) :
    r.resolve name = .ok descent := by
  have hrev : r.revision? name = some found := by
    rw [revision?_of_not_mem hmark hhead, named?_of_isNoHash hhash, fullNames, List.findSome?_cons,
      hfull, List.findSome?_cons, hshort, List.findSome?_cons, reference?_tagSpace, hfound]
  exact resolve_eq_ok.2 ⟨found, hrev, hdescent⟩

/-- Nothing else than `HEAD`, tags and branches has a full name. -/
theorem reference?_eq_none {name : String} (hne : name ≠ "HEAD")
    (htag : ∀ t, name.toList ≠ tagSpace.toList ++ t)
    (hbranch : ∀ t, name.toList ≠ branchSpace.toList ++ t) :
    r.reference? name = none := by
  have htag' : Text.after? tagSpace.toList name.toList = none :=
    Option.eq_none_iff_forall_ne_some.2 fun t ht => htag t (Text.after?_eq_some.1 ht)
  have hbranch' : Text.after? branchSpace.toList name.toList = none :=
    Option.eq_none_iff_forall_ne_some.2 fun t ht => hbranch t (Text.after?_eq_some.1 ht)
  rw [reference?, if_neg hne, htag', hbranch']

/-- Without a slash, nothing but `HEAD` is a full name, or short for one that has a space left
out. -/
theorem reference?_of_not_mem {name : String} (hslash : '/' ∉ name.toList) (hne : name ≠ "HEAD") :
    r.reference? name = none ∧ r.reference? ("refs/" ++ name) = none := by
  have hno {space : List Char} (hspace : '/' ∈ space) (t : List Char) : name.toList ≠ space ++ t :=
    fun h => hslash (h ▸ List.mem_append_left t hspace)
  have hnoRefs (space : List Char) (hspace : '/' ∈ space) (t : List Char) :
      ("refs/" ++ name).toList ≠ "refs/".toList ++ space ++ t := fun h => by
    rw [String.toList_append, List.append_assoc] at h
    exact hno hspace t (List.append_cancel_left h)
  have hHead : "refs/" ++ name ≠ "HEAD" := fun h => by
    have h := congrArg String.toList h
    rw [String.toList_append] at h
    exact absurd (List.cons.inj h).1 (by decide)
  constructor
  · exact reference?_eq_none hne (hno (by decide)) (hno (by decide))
  · exact reference?_eq_none hHead (hnoRefs "tags/".toList (by decide))
      (hnoRefs "heads/".toList (by decide))

end Repository

end ConventionalRelease
