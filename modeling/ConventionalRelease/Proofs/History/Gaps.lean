import ConventionalRelease.Proofs.History.Stretches
import Mathlib.Data.List.Nodup
import Mathlib.Data.List.Perm.Subperm

/-!
# Gaps in a history

Of the stretches between tips only those of some tips are kept. While the tips fall, no commit is
kept twice (`nodup_flatten_keptStretches`), and a commit is kept exactly if the oldest tip that has
it is kept (`mem_flatten_keptStretches`). So what is kept makes up the history of the newest tip
that is kept exactly if no tip after it leaves a gap (`count_keptStretches_iff`).
-/

namespace ConventionalRelease.Repository

variable {α : Type} {tip : α → Lineage} {kept : α → Bool} {tag : α} {older tags : List α}

/-- The stretches of the tips that are kept. -/
def keptStretches (tip : α → Lineage) (kept : α → Bool) (tags : List α) : List Lineage :=
  ((tags.zip (stretches (tags.map tip))).filter (kept ·.1)).map (·.2)

/-- The history of the first tip; nothing if there is none. -/
def firstTip (tip : α → Lineage) (tags : List α) : Lineage :=
  (tags.head?.map tip).getD []

/-- What is not kept has the same tip as what comes after it, so that nothing lies between them. -/
def NoGap (tip : α → Lineage) (kept : α → Bool) : List α → Prop
  | [] => True
  | tag :: older => (kept tag = false → older.head?.map tip = some (tip tag)) ∧ NoGap tip kept older

instance : ∀ tags : List α, Decidable (NoGap tip kept tags)
  | [] => isTrue trivial
  | _ :: older =>
    have := instDecidableNoGap older
    inferInstanceAs (Decidable (_ ∧ _))

/-- The stretches of the tips that are kept, cut from what comes with them. -/
theorem map_filter_zip {β : Type} {pairs : List (α × β)} (hfirst : pairs.map (·.1) = tags) :
    ((pairs.zip (stretches (tags.map tip))).filter (kept ·.1.1)).map (·.2) =
      keptStretches tip kept tags := by
  subst hfirst
  rw [keptStretches, List.zip_map_left, List.filter_map]
  simp only [List.map_map, Function.comp_def, Prod.map_fst, Prod.map_snd, id_eq]

theorem stretches_cons (first : Lineage) (tips : List Lineage) :
    stretches (first :: tips) = between first (tips.head?.getD []) :: stretches tips := by
  cases tips <;> rfl

/-- The first stretch is kept or left out. -/
theorem flatten_keptStretches_cons :
    (keptStretches tip kept (tag :: older)).flatten =
      (if kept tag then between (tip tag) (firstTip tip older) else []) ++
        (keptStretches tip kept older).flatten := by
  rw [keptStretches, List.map_cons, stretches_cons, List.head?_map, List.zip_cons_cons,
    List.filter_cons]
  cases kept tag <;> rfl

/-- What is left out before the first that is kept changes nothing. -/
theorem flatten_keptStretches_dropWhile (tags : List α) :
    (keptStretches tip kept (tags.dropWhile (!kept ·))).flatten =
      (keptStretches tip kept tags).flatten := by
  induction tags with
  | nil => rfl
  | cons tag older ih =>
    rw [List.dropWhile_cons]
    split
    · next hkept =>
      rw [Bool.not_eq_true'] at hkept
      rw [ih, flatten_keptStretches_cons, hkept]
      rfl
    · rfl

/-- The tip after a tip that falls is part of its history. -/
theorem firstTip_suffix (h : Falls ((tag :: older).map tip)) : firstTip tip older <:+ tip tag := by
  cases older with
  | nil => exact List.nil_suffix
  | cons next rest => exact (List.isChain_cons_cons.1 h).1

theorem falls_of_cons (h : Falls ((tag :: older).map tip)) : Falls (older.map tip) :=
  List.IsChain.tail h

/-- While the tips fall, each of them is part of the history of the first one. -/
theorem suffix_firstTip (h : Falls (tags.map tip)) (htag : tag ∈ tags) :
    tip tag <:+ firstTip tip tags := by
  induction tags with
  | nil => cases htag
  | cons first older ih =>
    rcases List.mem_cons.1 htag with rfl | htag
    · exact List.suffix_rfl
    · exact (ih (falls_of_cons h) htag).trans (firstTip_suffix h)

/-- While the tips fall, what is kept is part of the history of the first one, in order. -/
theorem flatten_keptStretches_sublist (hfalls : Falls (tags.map tip))
    (hnodup : ∀ tag ∈ tags, (tip tag).Nodup) :
    (keptStretches tip kept tags).flatten.Sublist (firstTip tip tags) := by
  induction tags with
  | nil => exact .slnil
  | cons tag older ih =>
    have ih := ih (falls_of_cons hfalls) fun t ht => hnodup t (List.mem_cons_of_mem _ ht)
    have hsuffix := firstTip_suffix hfalls
    rw [flatten_keptStretches_cons]
    show List.Sublist _ (tip tag)
    cases kept tag with
    | true =>
      have happend := ih.append_left (between (tip tag) (firstTip tip older))
      rw [between_append (hnodup tag List.mem_cons_self) hsuffix] at happend
      exact happend
    | false => exact ih.trans hsuffix.sublist

/-- While the tips fall, no commit is kept twice. -/
theorem nodup_flatten_keptStretches (hfalls : Falls (tags.map tip))
    (hnodup : ∀ tag ∈ tags, (tip tag).Nodup) :
    (keptStretches tip kept tags).flatten.Nodup := by
  have hfirst : (firstTip tip tags).Nodup := by
    cases tags with
    | nil => exact List.nodup_nil
    | cons tag older => exact hnodup tag List.mem_cons_self
  exact hfirst.sublist (flatten_keptStretches_sublist hfalls hnodup)

/-- While the tips fall, a commit is kept exactly if the oldest tip that has it is kept. -/
theorem mem_flatten_keptStretches (hfalls : Falls (tags.map tip)) {c : Commit} :
    c ∈ (keptStretches tip kept tags).flatten ↔
      ∃ tag, tags.reverse.find? (fun tag => decide (c ∈ tip tag)) = some tag ∧ kept tag = true := by
  induction tags with
  | nil => simp [keptStretches]
  | cons tag older ih =>
    rw [flatten_keptStretches_cons, List.mem_append, ih (falls_of_cons hfalls), List.reverse_cons,
      List.find?_append]
    cases hfound : older.reverse.find? fun tag => decide (c ∈ tip tag) with
    | some oldest =>
      -- an older tip has the commit, so it does not lie in the first stretch
      have hmem : c ∈ firstTip tip older := by
        have holdest : oldest ∈ older := List.mem_reverse.1 (List.mem_of_find?_eq_some hfound)
        have hc := List.find?_some hfound
        exact (suffix_firstTip (falls_of_cons hfalls) holdest).subset (of_decide_eq_true hc)
      have hnot : c ∉ if kept tag then between (tip tag) (firstTip tip older) else [] := by
        cases kept tag <;> simp [between, hmem]
      rw [Option.some_or]
      simp only [hnot, false_or]
    | none =>
      have hnot : c ∉ firstTip tip older := by
        intro hc
        cases older with
        | nil => cases hc
        | cons next rest =>
          have hnone := List.find?_eq_none.1 hfound next (by simp)
          exact hnone (decide_eq_true hc)
      rw [Option.none_or, List.find?_singleton]
      by_cases hc : c ∈ tip tag
      · cases hkept : kept tag <;> simp [between, hc, hnot, hkept]
      · cases kept tag <;> simp [between, hc]

/-- While the tips fall, what is kept makes up the history of the first one exactly if there is no
gap. -/
theorem flatten_keptStretches_eq_iff (hfalls : Falls (tags.map tip))
    (htips : ∀ tag ∈ tags, tip tag ≠ [] ∧ (tip tag).Nodup) :
    (keptStretches tip kept tags).flatten = firstTip tip tags ↔ NoGap tip kept tags := by
  induction tags with
  | nil => exact ⟨fun _ => trivial, fun _ => rfl⟩
  | cons tag older ih =>
    obtain ⟨⟨hne, hnodup⟩, hrest⟩ := List.forall_mem_cons.1 htips
    have ih := ih (falls_of_cons hfalls) hrest
    have hsuffix := firstTip_suffix hfalls
    rw [flatten_keptStretches_cons, NoGap]
    show _ = tip tag ↔ _
    cases hkept : kept tag with
    | true =>
      have hsplit := between_append hnodup hsuffix
      rw [if_pos rfl]
      constructor
      · intro h
        exact ⟨nofun, ih.1 (List.append_cancel_left (h.trans hsplit.symm))⟩
      · rintro ⟨-, hgap⟩
        rw [ih.2 hgap, hsplit]
    | false =>
      rw [if_neg Bool.false_ne_true, List.nil_append]
      constructor
      · intro h
        have hsublist : (keptStretches tip kept older).flatten.Sublist (firstTip tip older) :=
          flatten_keptStretches_sublist (falls_of_cons hfalls) fun t ht => (hrest t ht).2
        have hsame : firstTip tip older = tip tag :=
          hsuffix.eq_of_length_le (h ▸ hsublist.length_le)
        refine ⟨fun _ => ?_, ih.1 (h.trans hsame.symm)⟩
        cases older with
        | nil => exact absurd hsame.symm hne
        | cons next rest => exact congrArg some hsame
      · rintro ⟨hhead, hgap⟩
        rw [ih.2 hgap, firstTip, hhead rfl, Option.getD_some]

/-- The first that is kept is where what is left out before it ends. -/
theorem dropWhile_of_find? {newest : α} (h : tags.find? kept = some newest) :
    ∃ older, tags.dropWhile (!kept ·) = newest :: older := by
  induction tags with
  | nil => cases h
  | cons tag rest ih =>
    rw [List.dropWhile_cons]
    cases hkept : kept tag with
    | true =>
      rw [List.find?_cons_of_pos hkept] at h
      exact ⟨rest, congrArg (· :: rest) (Option.some.inj h)⟩
    | false =>
      rw [List.find?_cons_of_neg (by simp [hkept])] at h
      exact ih h

/-- While the tips fall, the history of the newest tip that is kept is kept, each commit once,
exactly if there is no gap after it. -/
theorem count_keptStretches_iff {newest : α} (hfalls : Falls (tags.map tip))
    (htips : ∀ tag ∈ tags, tip tag ≠ [] ∧ (tip tag).Nodup)
    (hnewest : tags.find? kept = some newest) :
    (∀ c ∈ tip newest, (keptStretches tip kept tags).flatten.count c = 1) ↔
      NoGap tip kept (tags.dropWhile (!kept ·)) := by
  obtain ⟨older, hdrop⟩ := dropWhile_of_find? hnewest
  have hsuffix : newest :: older <:+ tags := hdrop ▸ List.dropWhile_suffix _
  have hfalls' : Falls ((newest :: older).map tip) := List.IsChain.suffix hfalls (hsuffix.map tip)
  have htips' : ∀ tag ∈ newest :: older, tip tag ≠ [] ∧ (tip tag).Nodup :=
    fun tag htag => htips tag (hsuffix.subset htag)
  have hsublist : (keptStretches tip kept (newest :: older)).flatten.Sublist (tip newest) :=
    flatten_keptStretches_sublist hfalls' fun tag htag => (htips' tag htag).2
  have hnodup := (htips' newest List.mem_cons_self).2
  rw [← flatten_keptStretches_dropWhile, hdrop, ← flatten_keptStretches_eq_iff hfalls' htips']
  constructor
  · intro hcount
    have hsubset : tip newest ⊆ (keptStretches tip kept (newest :: older)).flatten := by
      intro c hc
      have hpos : 0 < (keptStretches tip kept (newest :: older)).flatten.count c := by
        rw [hcount c hc]
        exact Nat.one_pos
      exact List.count_pos_iff.1 hpos
    exact hsublist.eq_of_length_le (hnodup.subperm hsubset).length_le
  · intro hall c hc
    rw [hall]
    exact List.count_eq_one_of_mem hnodup hc

end ConventionalRelease.Repository
