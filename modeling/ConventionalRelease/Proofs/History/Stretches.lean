import ConventionalRelease.History.Range
import Mathlib.Data.List.Chain

/-!
# Stretches of a history

Tips on one trunk cut it into stretches: what is based on each tip and not on the next one, and all
that is based on the last tip. `flatten_stretches_iff` says when the stretches make up the whole
history of a commit, each commit of it once and in order: exactly if the tips rise to this commit
first and fall from there on (`RisesAndFalls`).
-/

namespace ConventionalRelease

/-! ## Histories on one trunk -/

/-- Two histories on one trunk are in line. -/
theorem suffix_or_suffix {trunk a b : Lineage} (ha : a <:+ trunk) (hb : b <:+ trunk) :
    a <:+ b ∨ b <:+ a := by
  rcases Nat.le_total a.length b.length with h | h
  · exact .inl (List.suffix_of_suffix_length_le ha hb h)
  · exact .inr (List.suffix_of_suffix_length_le hb ha h)

/-- A history is known by its newest commit. -/
theorem eq_of_head_eq {trunk a b : Lineage} {c : Commit} (hnodup : trunk.Nodup)
    (ha : c :: a <:+ trunk) (hb : c :: b <:+ trunk) : c :: a = c :: b := by
  have hsame {x y : Lineage} (hx : c :: x <:+ c :: y) (hy : c :: y <:+ trunk) :
      c :: x = c :: y := by
    rcases List.suffix_cons_iff.1 hx with h | h
    · exact h
    · have hy : (c :: y).Nodup := hnodup.sublist hy.sublist
      exact absurd (h.subset List.mem_cons_self) (List.nodup_cons.1 hy).1
  rcases suffix_or_suffix ha hb with h | h
  · exact hsame h hb
  · exact (hsame h ha).symm

/-- Histories that begin each other are the same. -/
theorem suffix_antisymm {a b : Lineage} (h : a <:+ b) (h' : b <:+ a) : a = b :=
  h.eq_of_length (Nat.le_antisymm h.length_le h'.length_le)

namespace Repository

/-- What is based on a tip and not on an older one, with what is based on the older one, is the
history of the tip. -/
theorem between_append {tip older : Lineage} (hnodup : tip.Nodup) (h : older <:+ tip) :
    between tip older ++ older = tip := by
  obtain ⟨newer, rfl⟩ := h
  have hdisjoint := (List.nodup_append.1 hnodup).2.2
  rw [between, List.filter_append, List.filter_eq_self.2, List.filter_eq_nil_iff.2, List.append_nil]
  · simp
  · exact fun c hc => decide_eq_true fun hc' => hdisjoint c hc c hc' rfl

/-- Nothing is based on a tip and not on a newer one. -/
theorem between_eq_nil {tip newer : Lineage} (h : tip <:+ newer) : between tip newer = [] :=
  List.filter_eq_nil_iff.2 fun c hc => by simp [h.subset hc]

/-- Nothing is based on a tip and not on it. -/
theorem between_self (tip : Lineage) : between tip tip = [] :=
  between_eq_nil List.suffix_rfl

/-- The whole history is not based on nothing. -/
theorem between_nil (tip : Lineage) : between tip [] = tip :=
  List.filter_eq_self.2 fun _ _ => rfl

/-! ## Stretches -/

/-- The stretches between tips, each up to the tip after it, and the whole history of the last
one. -/
def stretches : List Lineage → List Lineage
  | [] => []
  | [tip] => [between tip []]
  | tip :: older :: rest => between tip older :: stretches (older :: rest)

/-- The first stretch comes first. -/
theorem flatten_stretches_cons (tip : Lineage) (tips : List Lineage) :
    (stretches (tip :: tips)).flatten = between tip (tips.head?.getD []) ++
      (stretches tips).flatten := by
  cases tips with
  | nil => exact List.flatten_cons
  | cons older rest => exact List.flatten_cons

/-- Each tip is based on the one after it, or the same. -/
def Falls (tips : List Lineage) : Prop :=
  tips.IsChain fun tip older => older <:+ tip

/-- The tips rise to a commit, and fall from there on. -/
inductive RisesAndFalls (top : Lineage) : List Lineage → Prop
  | falls {rest : List Lineage} (h : Falls (top :: rest)) : RisesAndFalls top (top :: rest)
  | rises {tip next : Lineage} {rest : List Lineage} (h : tip <:+ next)
      (hrest : RisesAndFalls top (next :: rest)) : RisesAndFalls top (tip :: next :: rest)

/-- Tips that fall make up the history of the first one. -/
theorem flatten_stretches_of_falls {tip : Lineage} {rest : List Lineage} (hnodup : tip.Nodup)
    (h : Falls (tip :: rest)) : (stretches (tip :: rest)).flatten = tip := by
  induction rest generalizing tip with
  | nil =>
    show between tip [] ++ [] = tip
    rw [between_nil, List.append_nil]
  | cons older rest ih =>
    obtain ⟨hold, hrest⟩ := List.isChain_cons_cons.1 h
    rw [stretches, List.flatten_cons, ih (hnodup.sublist hold.sublist) hrest,
      between_append hnodup hold]

/-- Tips that rise and fall rise to the newest of them. -/
theorem RisesAndFalls.suffix_top {top tip : Lineage} {rest : List Lineage}
    (h : RisesAndFalls top (tip :: rest)) : tip <:+ top := by
  generalize htips : tip :: rest = tips at h
  induction h generalizing tip rest with
  | falls => exact (List.cons.inj htips).1 ▸ List.suffix_rfl
  | rises hnext _ ih => exact (List.cons.inj htips).1 ▸ hnext.trans (ih rfl)

/-- Tips that begin with the commit that they rise to only fall. -/
theorem RisesAndFalls.to_falls {top : Lineage} {rest : List Lineage}
    (h : RisesAndFalls top (top :: rest)) : Falls (top :: rest) := by
  induction rest with
  | nil => exact List.isChain_singleton top
  | cons next rest ih =>
    cases h with
    | falls h => exact h
    | rises hnext hrest =>
      obtain rfl := suffix_antisymm hnext hrest.suffix_top
      exact List.isChain_cons_cons.2 ⟨List.suffix_rfl, ih hrest⟩

/-- The stretches between tips make up the history of a commit exactly if the tips rise to this
commit and fall from there on. -/
theorem flatten_stretches_iff {trunk top : Lineage} {tips : List Lineage} (hnodup : trunk.Nodup)
    (htop : top ≠ [] ∧ top <:+ trunk) (htips : ∀ tip ∈ tips, tip ≠ [] ∧ tip <:+ trunk) :
    (stretches tips).flatten = top ↔ RisesAndFalls top tips := by
  constructor
  · intro h
    induction tips generalizing top with
    | nil => exact absurd h.symm htop.1
    | cons tip rest ih =>
      obtain ⟨htip, hrest⟩ := List.forall_mem_cons.1 htips
      cases rest with
      | nil =>
        rw [stretches, between_nil, List.flatten_cons, List.flatten_nil, List.append_nil] at h
        exact h ▸ .falls (List.isChain_singleton tip)
      | cons next rest =>
        have hnext := (List.forall_mem_cons.1 hrest).1
        rw [stretches, List.flatten_cons] at h
        rcases suffix_or_suffix htip.2 hnext.2 with hle | hle
        · rw [between_eq_nil hle, List.nil_append] at h
          exact .rises hle (ih htop hrest h)
        · -- the first stretch begins the history of `top` as it begins that of `tip`
          have htipNodup : tip.Nodup := hnodup.sublist htip.2.sublist
          have hsplit := between_append htipNodup hle
          cases hfront : between tip next with
          | nil =>
            rw [hfront, List.nil_append] at h hsplit
            exact .rises (hsplit ▸ List.suffix_rfl) (ih htop hrest h)
          | cons c front =>
            rw [hfront, List.cons_append] at h hsplit
            have heq : tip = top := by
              rw [← h, ← hsplit]
              exact eq_of_head_eq hnodup (hsplit ▸ htip.2) (h ▸ htop.2)
            have hflat : (stretches (next :: rest)).flatten = next := by
              rw [← heq, ← hsplit] at h
              exact List.append_cancel_left (List.cons.inj h).2
            have hfalls := (ih hnext hrest hflat).to_falls
            exact heq ▸ .falls (List.isChain_cons_cons.2 ⟨hle, hfalls⟩)
  · intro h
    induction h with
    | falls h => exact flatten_stretches_of_falls (hnodup.sublist htop.2.sublist) h
    | rises hle _ ih =>
      rw [stretches, between_eq_nil hle, List.flatten_cons, List.nil_append]
      exact ih (List.forall_mem_cons.1 htips).2

end Repository

end ConventionalRelease
