/-!
# Lines

A text is cut at line feeds. `pieces` keeps every piece, so that joining them again gives the text;
`lines` reads the text as lines with their ends: a carriage return before a line feed belongs to the
line's end, and a text that ends in a line feed has no further empty line.
-/

namespace ConventionalRelease.Text

/-- The pieces of the text between the characters `sep`: one more than there are such characters. -/
def splitAt (sep : Char) : List Char → List (List Char)
  | [] => [[]]
  | c :: rest =>
    if c = sep then
      [] :: splitAt sep rest
    else
      match splitAt sep rest with
      | [] => [[c]]
      | piece :: more => (c :: piece) :: more

/-- The texts joined with `sep` between them. -/
def join (sep : List Char) : List (List Char) → List Char
  | [] => []
  | [piece] => piece
  | piece :: more => piece ++ sep ++ join sep more

/-- The line without the carriage return that ends it, if there is one. -/
def dropReturn (line : List Char) : List Char :=
  if line.getLast? = some '\r' then line.dropLast else line

/-- Reads pieces as lines: each but the last ended in a line feed, and an empty last one is no
line. -/
def linesOfPieces : List (List Char) → List (List Char)
  | [] => []
  | [last] => if last = [] then [] else [last]
  | piece :: more => dropReturn piece :: linesOfPieces more

/-- The lines of a text. -/
def lines (s : List Char) : List (List Char) :=
  linesOfPieces (splitAt '\n' s)

/-- The text without carriage returns. -/
def dropReturns (s : List Char) : List Char :=
  s.filter (· != '\r')

/-- What follows the text `lead` at the front of `s`, if `s` begins with it. -/
def after? (lead s : List Char) : Option (List Char) :=
  if lead.isPrefixOf s then some (s.drop lead.length) else none

/-- A text is taken off from the front of what begins with it. -/
theorem after?_append (lead s : List Char) : after? lead (lead ++ s) = some s := by
  simp [after?]

/-- A text begins with what is taken off from it. -/
theorem after?_eq_some {lead s t : List Char} : after? lead s = some t ↔ s = lead ++ t := by
  constructor
  · intro h
    rw [after?] at h
    split at h
    · next hp =>
      obtain ⟨u, rfl⟩ := List.isPrefixOf_iff_prefix.1 hp
      rw [List.drop_left] at h
      rw [Option.some.inj h]
    · cases h
  · rintro rfl
    exact after?_append lead t

theorem splitAt_ne_nil (sep : Char) (s : List Char) : splitAt sep s ≠ [] := by
  cases s with
  | nil => simp [splitAt]
  | cons c rest =>
    rw [splitAt]
    split
    · simp
    · split <;> simp

/-- Joining the pieces gives the text back. -/
theorem join_splitAt (sep : Char) (s : List Char) : join [sep] (splitAt sep s) = s := by
  induction s with
  | nil => rfl
  | cons c rest ih =>
    cases h : splitAt sep rest with
    | nil => exact absurd h (splitAt_ne_nil sep rest)
    | cons piece more =>
      rw [h] at ih
      rw [splitAt, h]
      split
      · next hc => simp [join, hc, ih]
      · cases more with
        | nil => simpa [join] using ih
        | cons next others => simpa [join] using ih

/-- No piece holds the character the text was cut at. -/
theorem not_mem_of_mem_splitAt {sep : Char} {s piece : List Char} (h : piece ∈ splitAt sep s) :
    sep ∉ piece := by
  induction s generalizing piece with
  | nil => simp [splitAt] at h; simp [h]
  | cons c rest ih =>
    rw [splitAt] at h
    split at h
    · rcases List.mem_cons.mp h with rfl | h
      · simp
      · exact ih h
    · next hc =>
      split at h
      · simp at h; subst h; simpa using fun e => hc e.symm
      · next first more hs =>
        rcases List.mem_cons.mp h with rfl | h
        · simp only [List.mem_cons, not_or]
          exact ⟨fun e => hc e.symm, ih (by simp [hs])⟩
        · exact ih (by simp [hs, h])

end ConventionalRelease.Text
