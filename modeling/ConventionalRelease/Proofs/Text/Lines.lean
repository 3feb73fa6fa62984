import ConventionalRelease.Proofs.Text.Pieces

/-!
# Lines of a text

The first line of a text is what stands before its first line feed (`Text.lines_append_cons`). But
for carriage returns, the joined lines are the text up to a line feed at its end
(`Text.dropReturns_join_lines`).
-/

namespace ConventionalRelease.Text

@[simp] theorem dropReturn_of_not_mem {line : List Char} (h : '\r' ∉ line) :
    dropReturn line = line := by
  rw [dropReturn, if_neg fun hlast => h (List.mem_of_getLast? hlast)]

theorem dropReturn_prefix (line : List Char) : dropReturn line <+: line := by
  rw [dropReturn]
  split
  · exact List.dropLast_prefix line
  · exact List.prefix_refl line

theorem lines_of_not_mem {s : List Char} (h : '\n' ∉ s) (hne : s ≠ []) : lines s = [s] := by
  rw [lines, splitAt_of_not_mem h, linesOfPieces, if_neg hne]

/-- A line that a line feed ends comes before the lines of the rest. -/
theorem lines_append_cons {s : List Char} (h : '\n' ∉ s) (rest : List Char) :
    lines (s ++ '\n' :: rest) = dropReturn s :: lines rest := by
  rw [lines, splitAt_append_cons h, lines]
  cases hrest : splitAt '\n' rest with
  | nil => exact absurd hrest (splitAt_ne_nil '\n' rest)
  | cons piece more => rfl

/-- Carriage returns are dropped from each of two texts. -/
theorem dropReturns_append (s t : List Char) :
    dropReturns (s ++ t) = dropReturns s ++ dropReturns t :=
  List.filter_append s t

theorem dropReturns_of_not_mem {s : List Char} (h : '\r' ∉ s) : dropReturns s = s :=
  List.filter_eq_self.2 fun c hc => by simpa using fun e : c = '\r' => h (e ▸ hc)

theorem not_mem_dropReturns (s : List Char) : '\r' ∉ dropReturns s := by
  simp [dropReturns]

theorem dropReturns_dropReturn (line : List Char) :
    dropReturns (dropReturn line) = dropReturns line := by
  rw [dropReturn]
  split
  · next hlast =>
    obtain ⟨front, rfl⟩ := List.getLast?_eq_some_iff.1 hlast
    simp [dropReturns]
  · rfl

/-- Carriage returns are dropped from each of joined texts. -/
theorem dropReturns_join (pieces : List (List Char)) :
    dropReturns (join ['\n'] pieces) = join ['\n'] (pieces.map dropReturns) := by
  induction pieces with
  | nil => rfl
  | cons p rest ih =>
    cases rest with
    | nil => rfl
    | cons q rest =>
      have hline : dropReturns ['\n'] = ['\n'] := rfl
      simp only [join, List.map_cons, dropReturns_append, hline] at ih ⊢
      rw [ih]

/-- Joined lines are the joined pieces, but for carriage returns and an empty last piece. -/
theorem dropReturns_join_linesOfPieces (pieces : List (List Char)) :
    dropReturns (join ['\n'] pieces) = dropReturns (join ['\n'] (linesOfPieces pieces)) ∨
      dropReturns (join ['\n'] pieces) = dropReturns (join ['\n'] (linesOfPieces pieces)) ++
        ['\n'] := by
  have hline : dropReturns ['\n'] = ['\n'] := rfl
  induction pieces with
  | nil => exact .inl rfl
  | cons p rest ih =>
    cases rest with
    | nil =>
      left
      rw [linesOfPieces]
      split
      · next hp => rw [hp]; rfl
      · rfl
    | cons q rest =>
      rw [linesOfPieces, join]
      · cases rest with
        | nil =>
          rw [linesOfPieces]
          split
          · next hq => right; simp [hq, join, dropReturns_append, dropReturns_dropReturn, hline]
          · left; simp only [join, dropReturns_append, dropReturns_dropReturn, hline]
        | cons r rest =>
          simp only [linesOfPieces, join, dropReturns_append, dropReturns_dropReturn, hline,
            List.append_assoc, List.append_cancel_left_eq] at ih ⊢
          exact ih
      · exact List.cons_ne_nil q rest
      · exact List.cons_ne_nil q rest

/-- But for carriage returns, joining the lines gives the text up to a line feed at its end. -/
theorem dropReturns_join_lines (s : List Char) :
    dropReturns s = dropReturns (join ['\n'] (lines s)) ∨
      dropReturns s = dropReturns (join ['\n'] (lines s)) ++ ['\n'] := by
  have hpieces := dropReturns_join_linesOfPieces (splitAt '\n' s)
  rwa [join_splitAt] at hpieces

end ConventionalRelease.Text
