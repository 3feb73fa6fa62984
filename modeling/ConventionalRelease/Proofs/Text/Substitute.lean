import ConventionalRelease.Text.Substitute

/-!
# Substitution step by step

What a substitution does at the front of a text: it replaces the word if the text begins with it, it
copies a character at which the word does not begin, and it copies a whole front without the first
character of the word.
-/

namespace ConventionalRelease.Text

variable {word new : List Char}

/-- Characters that belong to a replaced occurrence are skipped. -/
theorem substituteFrom_length_append (front s : List Char) :
    substituteFrom word new front.length (front ++ s) = substitute word new s := by
  induction front with
  | nil => rfl
  | cons c front ih => exact ih

/-- The word at the front is replaced. -/
theorem substitute_word_append {c : Char} {tail : List Char} (s : List Char) :
    substitute (c :: tail) new (c :: tail ++ s) = new ++ substitute (c :: tail) new s := by
  have hprefix : (c :: tail).isPrefixOf (c :: tail ++ s) = true :=
    List.isPrefixOf_iff_prefix.2 (List.prefix_append _ _)
  rw [substitute, List.cons_append, substituteFrom, ← List.cons_append, if_pos hprefix]
  exact congrArg (new ++ ·) (substituteFrom_length_append tail s)

/-- A character at which the word does not begin is copied. -/
theorem substitute_cons {c : Char} {s : List Char} (h : ¬ word <+: c :: s) :
    substitute word new (c :: s) = c :: substitute word new s := by
  rw [substitute, substituteFrom, if_neg fun hp => h (List.isPrefixOf_iff_prefix.1 hp)]
  rfl

/-- A front without the first character of the word is copied. -/
theorem substitute_append_of_not_mem {c : Char} {tail front : List Char} (h : c ∉ front)
    (s : List Char) :
    substitute (c :: tail) new (front ++ s) = front ++ substitute (c :: tail) new s := by
  induction front with
  | nil => rfl
  | cons d front ih =>
    rw [List.mem_cons, not_or] at h
    rw [List.cons_append, substitute_cons, ih h.2]
    · rfl
    · rintro ⟨t, ht⟩
      exact h.1 (List.cons.inj ht).1

end ConventionalRelease.Text
