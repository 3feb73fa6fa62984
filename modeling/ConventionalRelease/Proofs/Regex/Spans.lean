import ConventionalRelease.Proofs.Regex.Capture
import ConventionalRelease.Proofs.Regex.Numbering

/-!
# Pieces of a text

An expression matches a piece of the text that stands between two others (`Regex.Spans`): with
anchors, what it matches depends on what is around it. From any place, and behind any other groups,
the ways to match are the pieces that it matches there, and what its groups record on the way
(`Regex.mem_ways_renumber`).
-/

namespace ConventionalRelease

/-- Whether a place comes after another one behind a piece of the text. -/
def Progress.Goes (w : Progress) (text : List Char) (w' : Progress) : Prop :=
  w.after = text ++ w'.after ∧ w'.before = text.reverse ++ w.before

theorem Progress.Goes.trans {u v w : Progress} {front text : List Char} (huv : u.Goes front v)
    (hvw : v.Goes text w) :
    u.Goes (front ++ text) w := by
  obtain ⟨huv, hv⟩ := huv
  obtain ⟨hvw, hw⟩ := hvw
  exact ⟨by rw [huv, hvw, List.append_assoc],
    by rw [hw, hv, List.reverse_append, List.append_assoc]⟩

namespace Regex

/-- Every way to match goes through a piece of the text. -/
theorem ways_goes (r : Regex) (w : Progress) : ∀ w' ∈ r.ways w, ∃ text, w.Goes text w' := by
  have htrans : ∀ u v w : Progress, (∃ text, u.Goes text v) → (∃ text, v.Goes text w) → ∃ text,
      u.Goes text w :=
    fun _ _ _ ⟨front, hfront⟩ ⟨text, htext⟩ => ⟨front ++ text, hfront.trans htext⟩
  induction r generalizing w with
  | empty =>
    intro w' h
    rw [List.mem_singleton.1 h]
    exact ⟨[], rfl, rfl⟩
  | one s =>
    intro w' h
    rw [ways] at h
    split at h
    · exact absurd h List.not_mem_nil
    · next c rest hafter =>
      split at h
      · rw [List.mem_singleton.1 h]
        exact ⟨[c], hafter, rfl⟩
      · exact absurd h List.not_mem_nil
  | anchor a =>
    intro w' h
    rw [ways] at h
    split at h
    · rw [List.mem_singleton.1 h]
      exact ⟨[], rfl, rfl⟩
    · exact absurd h List.not_mem_nil
  | seq p q ihp ihq =>
    intro w' h
    obtain ⟨v, hv, hw'⟩ := List.mem_flatMap.1 h
    exact htrans _ _ _ (ihp w v hv) (ihq v w' hw')
  | alt p q ihp ihq =>
    intro w' h
    rcases List.mem_append.1 h with h | h
    · exact ihp w w' h
    · exact ihq w w' h
  | many greedy p ih => exact repeatFrom_of_trans htrans ih greedy _ w []
  | group index p ih =>
    intro w' h
    obtain ⟨v, hv, rfl⟩ := List.mem_map.1 h
    exact ih w v hv

/-- Whether the expression matches the text that stands between two others, and records the groups
on the way. -/
def Records (r : Regex) (before text after : List Char) (recorded : List (Nat × List Char)) :
    Prop :=
  ⟨text.reverse ++ before.reverse, after, recorded⟩ ∈ r.ways ⟨before.reverse, text ++ after, []⟩

/-- Whether the expression matches the text that stands between two others. -/
def Spans (r : Regex) (before text after : List Char) : Prop :=
  ∃ recorded, r.Records before text after recorded

/-- Behind other groups, the ways to match are the pieces of the text that the expression matches,
with what its groups record under later numbers. -/
theorem mem_ways_renumber {r : Regex} {k : Nat} {before after : List Char}
    {groups : List (Nat × List Char)} {w' : Progress} :
    w' ∈ (r.renumber k).ways ⟨before.reverse, after, groups⟩ ↔
      ∃ text rest recorded, after = text ++ rest ∧ r.Records before text rest recorded ∧
        w' = ⟨(before ++ text).reverse, rest, laterGroups k recorded ++ groups⟩ := by
  have hplace : (⟨before.reverse, after, groups⟩ : Progress) =
      Progress.later k groups ⟨before.reverse, after, []⟩ := rfl
  rw [hplace, ways_renumber, List.mem_map]
  constructor
  · rintro ⟨v, hv, rfl⟩
    obtain ⟨text, hafter, hbefore⟩ := ways_goes r _ v hv
    obtain ⟨place, rest, recorded⟩ := v
    dsimp only at hafter hbefore
    subst hafter hbefore
    exact ⟨text, rest, recorded, rfl, hv, by rw [List.reverse_append]; rfl⟩
  · rintro ⟨text, rest, recorded, rfl, hrecords, rfl⟩
    exact ⟨_, hrecords, by rw [List.reverse_append]; rfl⟩

end Regex

end ConventionalRelease
