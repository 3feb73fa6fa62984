import ConventionalRelease.Proofs.Dictionary
import ConventionalRelease.Regex.Pattern

/-!
# What groups record

A match goes forward through the text, and what its groups record are pieces of the text it went
through (`Regex.ways_advances`). So a group never holds a character that the searched text does not
hold (`Pattern.mem_of_group?_search`).
-/

namespace ConventionalRelease

/-- A place that a match may have come to from another one: what is left of the text is an end of
what was left, and the groups that were recorded on the way hold pieces of it. -/
structure Progress.Advances (w w' : Progress) : Prop where
  after : w'.after <:+ w.after
  groups : ∀ g ∈ w'.groups, g ∈ w.groups ∨ g.2 <:+: w.after

namespace Progress.Advances

variable {u v w : Progress}

theorem refl (w : Progress) : Advances w w :=
  ⟨List.suffix_refl w.after, fun _ hg => .inl hg⟩

theorem trans (huv : Advances u v) (hvw : Advances v w) : Advances u w := by
  refine ⟨hvw.after.trans huv.after, fun g hg => ?_⟩
  rcases hvw.groups g hg with hg | hpiece
  · exact huv.groups g hg
  · exact .inr (hpiece.trans huv.after.isInfix)

/-- What was gone through on the way may be recorded. -/
theorem record (h : Advances v w) (index : Nat) : Advances v (w.record index v) := by
  refine ⟨h.after, fun g hg => ?_⟩
  rcases List.mem_cons.1 hg with rfl | hg
  · exact .inr (List.take_prefix _ v.after).isInfix
  · exact h.groups g hg

end Progress.Advances

open Progress (Advances)

/-- What holds of every iteration holds of a repetition, if it can be put together. -/
theorem repeatFrom_of_trans {body : Progress → List Progress} {R : Progress → Progress → Prop}
    (htrans : ∀ u v w, R u v → R v w → R u w) (hbody : ∀ w, ∀ w' ∈ body w, R w w')
    (greedy : Bool) (n : Nat) (w : Progress) (seen : List Nat) :
    ∀ w' ∈ (repeatFrom body greedy n w seen).1, R w w' := by
  induction n generalizing w seen with
  | zero => exact fun w' h => absurd h List.not_mem_nil
  | succ n ih =>
    -- it holds of what was found so far, whatever places were seen
    refine List.foldlRecOn (motive := fun state : List Progress × List Nat =>
      ∀ w' ∈ state.1, R w w') (body w) _ (b := ([], seen))
      (fun w' h => absurd h List.not_mem_nil) fun state hfound v hv => ?_
    obtain ⟨found, seen⟩ := state
    have hv := hbody w v hv
    have hfurther : ∀ w' ∈ (repeatFrom body greedy n v (v.left :: seen)).1, R w w' :=
      fun w' hw' => htrans _ _ _ hv (ih v _ w' hw')
    dsimp only at hfound ⊢
    split
    · exact hfound
    · split
      · intro w' hw'
        rcases List.mem_append.1 hw' with hw' | hw'
        · exact hfound w' hw'
        · exact List.mem_singleton.1 hw' ▸ hv
      · intro w' hw'
        rcases List.mem_append.1 hw' with hw' | hw'
        · exact hfound w' hw'
        · have hmem : w' ∈ (repeatFrom body greedy n v (v.left :: seen)).1 ∨ w' = v := by
            cases greedy with
            | true => exact (List.mem_append.1 hw').imp id List.mem_singleton.1
            | false => exact (List.mem_cons.1 hw').symm
          rcases hmem with hw' | rfl
          · exact hfurther w' hw'
          · exact hv

namespace Regex

/-- Every way to match goes forward. -/
theorem ways_advances (r : Regex) (w : Progress) : ∀ w' ∈ r.ways w, Advances w w' := by
  induction r generalizing w with
  | empty =>
    intro w' h
    rw [List.mem_singleton.1 h]
    exact .refl w
  | one s =>
    intro w' h
    rw [ways] at h
    split at h
    · exact absurd h List.not_mem_nil
    · next c rest hafter =>
      split at h
      · rw [List.mem_singleton.1 h]
        exact ⟨hafter ▸ List.suffix_cons c rest, fun g hg => .inl hg⟩
      · exact absurd h List.not_mem_nil
  | anchor a =>
    intro w' h
    rw [ways] at h
    split at h
    · rw [List.mem_singleton.1 h]
      exact .refl w
    · exact absurd h List.not_mem_nil
  | seq p q ihp ihq =>
    intro w' h
    obtain ⟨v, hv, hw'⟩ := List.mem_flatMap.1 h
    exact (ihp w v hv).trans (ihq v w' hw')
  | alt p q ihp ihq =>
    intro w' h
    rcases List.mem_append.1 h with h | h
    · exact ihp w w' h
    · exact ihq w w' h
  | many greedy p ih => exact repeatFrom_of_trans (fun _ _ _ => .trans) ih greedy _ w []
  | group index p ih =>
    intro w' h
    obtain ⟨v, hv, rfl⟩ := List.mem_map.1 h
    exact (ih w v hv).record index

/-- A match that is found in a text records pieces of the text. -/
theorem groups_searchFrom {r : Regex} {before text : List Char} {w : Progress}
    (h : r.searchFrom before text = some w) : ∀ g ∈ w.groups, g.2 <:+: text := by
  have hhere : ∀ {before text : List Char}, (r.ways ⟨before, text, []⟩).head? = some w →
      ∀ g ∈ w.groups, g.2 <:+: text := by
    intro before text h g hg
    have hadvances := ways_advances r _ w (List.mem_of_head? h)
    exact (hadvances.groups g hg).resolve_left List.not_mem_nil
  induction text generalizing before with
  | nil => exact hhere h
  | cons c rest ih =>
    rw [searchFrom] at h
    split at h
    · next hfound => exact hhere (hfound.trans h)
    · intro g hg
      exact (ih h g hg).trans (List.suffix_cons c rest).isInfix

end Regex

/-- What a group of a match holds stands in the text that was searched. -/
theorem Pattern.mem_of_group?_search {p : Pattern} {text found : List Char} {w : Progress}
    {index : Nat} (h : p.search text = some w) (hgroup : w.group? index = some found) {c : Char}
    (hc : c ∈ found) : c ∈ text := by
  have hpiece := Regex.groups_searchFrom h _ (mem_of_lookup hgroup)
  exact hpiece.subset hc

end ConventionalRelease
