import ConventionalRelease.Text.Lines

/-!
# Pieces of a text

Cutting a text at a character and joining pieces with it are inverse: `Text.join_splitAt` is one
direction, and `Text.splitAt_join` the other, for pieces without the character.
-/

namespace ConventionalRelease.Text

/-- A text without the character is one piece. -/
theorem splitAt_of_not_mem {sep : Char} {s : List Char} (h : sep ∉ s) : splitAt sep s = [s] := by
  induction s with
  | nil => rfl
  | cons c s ih =>
    rw [List.mem_cons, not_or] at h
    rw [splitAt, if_neg (fun e => h.1 e.symm), ih h.2]

/-- What stands before the first occurrence of the character is the first piece. -/
theorem splitAt_append_cons {sep : Char} {s : List Char} (h : sep ∉ s) (rest : List Char) :
    splitAt sep (s ++ sep :: rest) = s :: splitAt sep rest := by
  induction s with
  | nil => rw [List.nil_append, splitAt, if_pos rfl]
  | cons c s ih =>
    rw [List.mem_cons, not_or] at h
    rw [List.cons_append, splitAt, if_neg (fun e => h.1 e.symm), ih h.2]

/-- Joined pieces without the character are what their text is cut into. -/
theorem splitAt_join {sep : Char} {pieces : List (List Char)} (hne : pieces ≠ [])
    (h : ∀ p ∈ pieces, sep ∉ p) : splitAt sep (join [sep] pieces) = pieces := by
  induction pieces with
  | nil => exact absurd rfl hne
  | cons p rest ih =>
    have hp : sep ∉ p := h p List.mem_cons_self
    cases rest with
    | nil => exact splitAt_of_not_mem hp
    | cons q rest =>
      have ih := ih (List.cons_ne_nil _ _) fun r hr => h r (List.mem_cons_of_mem _ hr)
      rw [join, List.append_assoc, List.singleton_append, splitAt_append_cons hp, ih]
      exact List.cons_ne_nil _ _

/-- Pieces that the character ends each are what their text is cut into, and nothing is left behind
the last one. -/
theorem splitAt_flatMap_concat {sep : Char} {pieces : List (List Char)}
    (h : ∀ p ∈ pieces, sep ∉ p) :
    splitAt sep (pieces.flatMap (· ++ [sep])) = pieces ++ [[]] := by
  induction pieces with
  | nil => rfl
  | cons p rest ih =>
    rw [List.flatMap_cons, List.append_assoc, List.singleton_append,
      splitAt_append_cons (h p List.mem_cons_self), ih fun q hq => h q (List.mem_cons_of_mem p hq),
      List.cons_append]

theorem join_eq_intercalate (sep : List Char) (pieces : List (List Char)) :
    join sep pieces = sep.intercalate pieces := by
  induction pieces with
  | nil => rfl
  | cons p rest ih =>
    cases rest with
    | nil => exact List.intercalate_singleton.symm
    | cons q rest =>
      rw [List.intercalate_cons_cons, ← ih, join]
      exact List.cons_ne_nil q rest

/-- Joined texts consist of what the texts and the separator consist of. -/
theorem all_join {p : Char → Bool} {sep : List Char} {pieces : List (List Char)}
    (hsep : ∀ c ∈ sep, p c = true) (h : ∀ s ∈ pieces, ∀ c ∈ s, p c = true) :
    ∀ c ∈ join sep pieces, p c = true := by
  induction pieces with
  | nil => simp [join]
  | cons s rest ih =>
    have ih := ih fun t ht => h t (List.mem_cons_of_mem _ ht)
    cases rest with
    | nil => exact h s List.mem_cons_self
    | cons t rest =>
      intro c hc
      simp only [join, List.mem_append] at hc
      rcases hc with (hc | hc) | hc
      · exact h s List.mem_cons_self c hc
      · exact hsep c hc
      · exact ih c hc

end ConventionalRelease.Text
