import ConventionalRelease.Dictionary
import Mathlib.Data.List.Sort

/-!
# Reading dictionaries

What is put into a dictionary is found under its name, and nothing else changes
(`Dictionary.get?_insert`). Entries left out by their values are not found
(`Dictionary.lookup_filter`). The entries determine the dictionary, in whatever order they are put
in (`Dictionary.ofList_of_perm`).
-/

namespace ConventionalRelease

/-- What is looked up is in the list. -/
theorem mem_of_lookup {α β : Type} [BEq α] [LawfulBEq α] {l : List (α × β)} {k : α} {b : β}
    (h : l.lookup k = some b) : (k, b) ∈ l := by
  obtain ⟨l₁, l₂, rfl, -⟩ := List.lookup_eq_some_iff.1 h
  exact List.mem_append_right _ List.mem_cons_self

theorem lookup_cons {κ α : Type} [BEq κ] [LawfulBEq κ] [DecidableEq κ] (key other : κ) (value : α)
    (entries : List (κ × α)) :
    List.lookup other ((key, value) :: entries) =
      if other = key then some value else entries.lookup other := by
  rw [List.lookup_cons]
  by_cases h : other = key
  · rw [if_pos h, beq_iff_eq.2 h]
  · rw [if_neg h, beq_false_of_ne h]

namespace Dictionary

variable {α : Type}

@[simp] theorem get?_empty (name : String) : (∅ : Dictionary α).get? name = none := rfl

/-- Inserting an entry changes what is found under its name and under no other. -/
theorem lookup_insertEntry (name other : String) (value : α) (entries : List (String × α)) :
    (insertEntry name value entries).lookup other =
      if other = name then some value else entries.lookup other := by
  induction entries with
  | nil => exact lookup_cons name other value []
  | cons head rest ih =>
    obtain ⟨first, old⟩ := head
    rw [insertEntry]
    split
    · exact lookup_cons name other value _
    · split
      · next heq =>
        subst heq
        rw [lookup_cons, lookup_cons]
        split <;> rfl
      · next hne =>
        rw [lookup_cons, lookup_cons, ih]
        by_cases hfirst : other = first
        · rw [if_pos hfirst, if_pos hfirst, if_neg fun hname => hne (hname.symm.trans hfirst)]
        · rw [if_neg hfirst, if_neg hfirst]

/-- A value that is put in is what is found under its name. -/
theorem get?_insert (d : Dictionary α) (name other : String) (value : α) :
    (d.insert name value).get? other = if other = name then some value else d.get? other :=
  lookup_insertEntry name other value d.entries

/-- In a list with distinct names, the entry that is found does not depend on the entries that are
left out. -/
theorem lookup_filter (p : α → Bool) (name : String) {entries : List (String × α)}
    (h : entries.Pairwise (fun a b => a.1 < b.1)) :
    (entries.filter (p ·.2)).lookup name = (entries.lookup name).filter p := by
  induction entries with
  | nil => rfl
  | cons head rest ih =>
    obtain ⟨first, value⟩ := head
    obtain ⟨hhead, hrest⟩ := List.pairwise_cons.mp h
    have hfirst : List.lookup first rest = none :=
      List.lookup_eq_none_iff.2 fun e he => by simpa using (String.ne_of_lt (hhead e he))
    rw [List.filter_cons, lookup_cons]
    cases hp : p value with
    | true =>
      rw [if_pos rfl, lookup_cons, ih hrest]
      split
      · rw [Option.filter_some_pos hp]
      · rfl
    | false =>
      rw [if_neg Bool.false_ne_true, ih hrest]
      split
      · next hname => rw [hname, hfirst, Option.filter_some_neg hp]; rfl
      · rfl

/-- In a list with distinct names, what is found is what is in the list. -/
theorem lookup_eq_some_iff_mem {entries : List (String × α)} (h : (entries.map (·.1)).Nodup)
    {name : String} {value : α} : entries.lookup name = some value ↔ (name, value) ∈ entries := by
  refine ⟨mem_of_lookup, fun hmem => ?_⟩
  induction entries with
  | nil => cases hmem
  | cons head rest ih =>
    obtain ⟨first, old⟩ := head
    obtain ⟨hfirst, hrest⟩ := List.nodup_cons.1 h
    rw [lookup_cons]
    rcases List.mem_cons.1 hmem with heq | hmem
    · cases heq
      rw [if_pos rfl]
    · have hother : name ≠ first := fun e => hfirst (List.mem_map.2 ⟨_, hmem, e⟩)
      rw [if_neg hother, ih hrest hmem]

theorem nodup_names (d : Dictionary α) : (d.entries.map (·.1)).Nodup :=
  List.pairwise_map.2 (d.sorted.imp fun h => String.ne_of_lt h)

/-- Dictionaries with the same entries are equal, whatever the order they are known in. -/
theorem eq_of_mem_iff {d d' : Dictionary α} (h : ∀ e, e ∈ d.entries ↔ e ∈ d'.entries) : d = d' := by
  have hirrefl : Std.Irrefl fun a b : String × α => a.1 < b.1 := ⟨fun e => String.lt_irrefl e.1⟩
  have hantisymm : Std.Antisymm fun a b : String × α => a.1 < b.1 :=
    ⟨fun a b hab hba => absurd hba (String.lt_asymm hab)⟩
  have hentries := List.Pairwise.eq_of_mem_iff d.sorted d'.sorted h
  cases d
  cases d'
  cases hentries
  rfl

/-- Of the entries that a dictionary is made of, the last with a name counts. -/
theorem get?_ofList (entries : List (String × α)) (name : String) :
    (ofList entries).get? name = entries.reverse.lookup name := by
  have hfold : ∀ d : Dictionary α, (entries.foldl (fun d e => d.insert e.1 e.2) d).get? name =
      (entries.reverse.lookup name).or (d.get? name) := by
    induction entries with
    | nil => intro d; rfl
    | cons head rest ih =>
      intro d
      rw [List.foldl_cons, ih, List.reverse_cons, List.lookup_append, get?_insert, lookup_cons,
        Option.or_assoc]
      split <;> rfl
  exact (hfold empty).trans (Option.or_none ..)

/-- The dictionary of entries with distinct names has just these entries. -/
theorem ofList_of_perm {entries : List (String × α)} {d : Dictionary α}
    (h : entries.Perm d.entries) :
    ofList entries = d := by
  have hnames : (entries.reverse.map (·.1)).Nodup :=
    (((List.reverse_perm entries).trans h).map (·.1)).nodup_iff.2 d.nodup_names
  refine eq_of_mem_iff fun e => ?_
  obtain ⟨name, value⟩ := e
  rw [← lookup_eq_some_iff_mem (ofList entries).nodup_names]
  refine (iff_of_eq (congrArg (· = some value) (get?_ofList entries name))).trans ?_
  rw [lookup_eq_some_iff_mem hnames, List.mem_reverse, h.mem_iff]

end Dictionary

end ConventionalRelease
