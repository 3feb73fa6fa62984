/-!
# Dictionaries

Values under distinct names, kept in ascending order of the names. The order is part of the type, so
two dictionaries with the same entries are equal and every traversal is in the order of the names.
-/

namespace ConventionalRelease

/-- Values under distinct names in ascending order. -/
structure Dictionary (α : Type) where
  /-- The names with their values. -/
  entries : List (String × α)
  /-- The names ascend, so no name occurs twice. -/
  sorted : entries.Pairwise (fun a b => a.1 < b.1)
  deriving DecidableEq

namespace Dictionary

variable {α : Type}

/-- The entries with `value` under `name`, in place of what was there. -/
def insertEntry (name : String) (value : α) : List (String × α) → List (String × α)
  | [] => [(name, value)]
  | (other, old) :: rest =>
    if name < other then
      (name, value) :: (other, old) :: rest
    else if name = other then
      (name, value) :: rest
    else
      (other, old) :: insertEntry name value rest

theorem mem_insertEntry {name : String} {value : α} {entries : List (String × α)} {e : String × α}
    (h : e ∈ insertEntry name value entries) : e = (name, value) ∨ e ∈ entries := by
  induction entries with
  | nil => simpa [insertEntry] using h
  | cons head rest ih =>
    rw [insertEntry] at h
    split at h
    · simpa using h
    · split at h
      · rcases List.mem_cons.mp h with h | h
        · exact .inl h
        · exact .inr (List.mem_cons_of_mem _ h)
      · rcases List.mem_cons.mp h with h | h
        · exact .inr (h ▸ List.mem_cons_self)
        · rcases ih h with h | h
          · exact .inl h
          · exact .inr (List.mem_cons_of_mem _ h)

theorem insertEntry_sorted (name : String) (value : α) {entries : List (String × α)}
    (h : entries.Pairwise (fun a b => a.1 < b.1)) :
    (insertEntry name value entries).Pairwise (fun a b => a.1 < b.1) := by
  induction entries with
  | nil => simp [insertEntry]
  | cons head rest ih =>
    obtain ⟨other, old⟩ := head
    obtain ⟨hhead, hrest⟩ := List.pairwise_cons.mp h
    rw [insertEntry]
    split
    · next hlt =>
      refine List.pairwise_cons.mpr ⟨fun e he => ?_, h⟩
      rcases List.mem_cons.mp he with rfl | he
      · exact hlt
      · exact String.lt_trans hlt (hhead e he)
    · next hnlt =>
      split
      · next heq =>
        subst heq
        exact List.pairwise_cons.mpr ⟨hhead, hrest⟩
      · next hne =>
        refine List.pairwise_cons.mpr ⟨fun e he => ?_, ih hrest⟩
        rcases mem_insertEntry he with rfl | he
        · rcases Decidable.em (other < name) with hlt | hge
          · exact hlt
          · exact absurd (String.le_antisymm (String.not_lt.mp hge) (String.not_lt.mp hnlt)) hne
        · exact hhead e he

/-- No entries. -/
def empty : Dictionary α := ⟨[], .nil⟩

instance : EmptyCollection (Dictionary α) := ⟨empty⟩

instance : Inhabited (Dictionary α) := ⟨empty⟩

/-- The dictionary with `value` under `name`. -/
def insert (d : Dictionary α) (name : String) (value : α) : Dictionary α :=
  ⟨insertEntry name value d.entries, insertEntry_sorted name value d.sorted⟩

/-- The dictionary of a list of entries; of two entries with one name the later one counts. -/
def ofList (entries : List (String × α)) : Dictionary α :=
  entries.foldl (fun d e => d.insert e.1 e.2) empty

/-- The value under a name. -/
def get? (d : Dictionary α) (name : String) : Option α :=
  d.entries.lookup name

/-- Whether there are no entries. -/
def isEmpty (d : Dictionary α) : Bool :=
  d.entries.isEmpty

end Dictionary

end ConventionalRelease
