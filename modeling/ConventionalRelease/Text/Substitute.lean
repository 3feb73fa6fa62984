/-!
# Substitution of a word in a text

Occurrences are found from left to right and do not overlap; what is put in is not searched again.
-/

namespace ConventionalRelease.Text

/-- Replaces the occurrences of `word` by `new`, skipping the first `skip` characters, which belong
to an occurrence already replaced. -/
def substituteFrom (word new : List Char) : Nat → List Char → List Char
  | _, [] => []
  | skip + 1, _ :: rest => substituteFrom word new skip rest
  | 0, c :: rest =>
    if word.isPrefixOf (c :: rest) then
      new ++ substituteFrom word new (word.length - 1) rest
    else
      c :: substituteFrom word new 0 rest

/-- The text with every occurrence of the non-empty `word` replaced by `new`. -/
def substitute (word new s : List Char) : List Char :=
  substituteFrom word new 0 s

/-- Whether `word` occurs in the text. -/
def occursIn (word : List Char) : List Char → Bool
  | [] => word.isEmpty
  | c :: rest => word.isPrefixOf (c :: rest) || occursIn word rest

end ConventionalRelease.Text
