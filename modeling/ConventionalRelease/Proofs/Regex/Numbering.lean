import ConventionalRelease.Regex.Basic

/-!
# Later numbers of groups

Behind `k` other groups, the groups of an expression have numbers that are greater by `k`
(`Regex.renumber`). The expression then matches in the same ways, and what its groups record has the
later numbers (`Regex.ways_renumber`); what was recorded before does not matter.
-/

namespace ConventionalRelease

/-- The number that a group has behind `k` others. Number 0 is that of the whole match, and
stays. -/
def laterIndex (k i : Nat) : Nat :=
  if i = 0 then 0 else i + k

/-- A later number is that of the whole match or comes behind the `k` numbers before it. -/
theorem laterIndex_eq_zero_or_lt (k i : Nat) : laterIndex k i = 0 ∨ k < laterIndex k i := by
  unfold laterIndex
  split
  · exact .inl rfl
  · exact .inr (by omega)

/-- What was recorded under the numbers, recorded under the later ones. -/
def laterGroups (k : Nat) (groups : List (Nat × List Char)) : List (Nat × List Char) :=
  groups.map fun g => (laterIndex k g.1, g.2)

/-- The place, with its groups under later numbers and behind other groups. -/
def Progress.later (k : Nat) (groups : List (Nat × List Char)) (w : Progress) : Progress :=
  { w with groups := laterGroups k w.groups ++ groups }

/-- A repetition matches in the same ways after a change of places that its iterations respect. -/
theorem repeatFrom_map {body body' : Progress → List Progress} {f : Progress → Progress}
    (hleft : ∀ w, (f w).left = w.left) (hbody : ∀ w, body' (f w) = (body w).map f)
    (greedy : Bool) (n : Nat) (w : Progress) (seen : List Nat) :
    repeatFrom body' greedy n (f w) seen =
      ((repeatFrom body greedy n w seen).1.map f, (repeatFrom body greedy n w seen).2) := by
  induction n generalizing w seen with
  | zero => rfl
  | succ n ih =>
    rw [repeatFrom, repeatFrom, hbody, List.foldl_map]
    -- what was found so far is the same after the change, and the same places were seen
    let after (state : List Progress × List Nat) : List Progress × List Nat :=
      (state.1.map f, state.2)
    refine @List.foldl_hom _ _ _ after _ _ (body w) ([], seen) fun state v => ?_
    obtain ⟨found, seen⟩ := state
    dsimp only [after]
    rw [hleft, hleft]
    split
    · rfl
    · split
      · rw [List.map_append, List.map_singleton]
      · rw [ih]
        cases greedy <;> simp

namespace Regex

/-- The expression behind `k` other groups. -/
def renumber (k : Nat) : Regex → Regex
  | empty => empty
  | one s => one s
  | anchor a => anchor a
  | seq p q => seq (p.renumber k) (q.renumber k)
  | alt p q => alt (p.renumber k) (q.renumber k)
  | many greedy p => many greedy (p.renumber k)
  | group index p => group (laterIndex k index) (p.renumber k)

variable {k : Nat}

theorem renumber_optional (greedy : Bool) (p : Regex) :
    (optional greedy p).renumber k = optional greedy (p.renumber k) := by
  cases greedy <;> rfl

theorem renumber_sequence (parts : List Regex) :
    (sequence parts).renumber k = sequence (parts.map (renumber k)) := by
  fun_induction sequence parts with
  | case1 => rfl
  | case2 => rfl
  | case3 p rest hne ih =>
    cases rest with
    | nil => exact absurd rfl hne
    | cons q rest => rw [renumber, ih]; rfl

theorem renumber_choice (branches : List Regex) :
    (choice branches).renumber k = choice (branches.map (renumber k)) := by
  fun_induction choice branches with
  | case1 => rfl
  | case2 => rfl
  | case3 p rest hne ih =>
    cases rest with
    | nil => exact absurd rfl hne
    | cons q rest => rw [renumber, ih]; rfl

theorem renumber_upTo (greedy : Bool) (p : Regex) (n : Nat) :
    (upTo greedy p n).renumber k = upTo greedy (p.renumber k) n := by
  fun_induction upTo greedy p n with
  | case1 => rfl
  | case2 => exact renumber_optional greedy p
  | case3 n hne ih =>
    obtain ⟨n, rfl⟩ := Nat.exists_eq_succ_of_ne_zero hne
    rw [renumber_optional, renumber, ih]
    rfl

theorem renumber_repeated (greedy : Bool) (p : Regex) (min : Nat) (max : Option Nat) :
    (repeated greedy p min max).renumber k = repeated greedy (p.renumber k) min max := by
  unfold repeated
  split
  · exact renumber_optional greedy _
  · rw [renumber_sequence, List.map_append, List.map_replicate]
    rfl
  · split
    · rfl
    · rw [renumber_sequence, List.map_append, List.map_replicate]
      split
      · rfl
      · rw [List.map_singleton, renumber_upTo]

/-- Behind other groups, an expression matches in the same ways. -/
theorem ways_renumber (r : Regex) (groups : List (Nat × List Char)) (w : Progress) :
    (r.renumber k).ways (w.later k groups) = (r.ways w).map (·.later k groups) := by
  induction r generalizing w with
  | empty => rfl
  | one s =>
    obtain ⟨before, after, recorded⟩ := w
    cases after with
    | nil => rfl
    | cons c rest =>
      simp only [renumber, ways, Progress.later]
      split <;> rfl
  | anchor a =>
    simp only [renumber, ways]
    change (if a.holds w = true then _ else _) = _
    split <;> rfl
  | seq p q ihp ihq =>
    rw [renumber, ways, ways, ihp, List.flatMap_map, List.map_flatMap]
    simp only [ihq]
  | alt p q ihp ihq =>
    rw [renumber, ways, ways, ihp, ihq, List.map_append]
  | many greedy p ih =>
    have hleft : ∀ w, (Progress.later k groups w).left = w.left := fun _ => rfl
    exact congrArg Prod.fst (repeatFrom_map hleft ih greedy _ w [])
  | group index p ih =>
    rw [renumber, ways, ways, ih, List.map_map, List.map_map]
    rfl

end Regex

end ConventionalRelease
