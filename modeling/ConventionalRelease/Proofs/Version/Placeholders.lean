import ConventionalRelease.Proofs.Version.TagName

/-!
# One substitution for all placeholders

The name of a tag comes from four replacements, each over the whole text that the one before left.
Here it is compared with what a reader of the pattern expects: one pass from left to right over the
pattern alone, in which a placeholder is replaced wherever one begins and every other character is
copied (`Substitutes`). Both give the same (`TagRules.name_substitutes`).
-/

namespace ConventionalRelease

/-- A pass from left to right over a pattern: a placeholder is replaced where one begins, and a
character at which none begins is copied. What has been put in is not looked at again. -/
inductive Substitutes (v : Version) : List Char → List Char → Prop
  | nil : Substitutes v [] []
  | placeholder {s t : List Char} (p : Placeholder) :
      Substitutes v s t → Substitutes v (p.word ++ s) (p.value v ++ t)
  | char {c : Char} {s t : List Char} :
      (∀ p : Placeholder, ¬ p.word <+: c :: s) → Substitutes v s t → Substitutes v (c :: s) (c :: t)

/-- A text begins with one placeholder at most. -/
theorem Placeholder.eq_of_word_append {p q : Placeholder} {s t : List Char}
    (h : p.word ++ s = q.word ++ t) : p = q := by
  have htail : p.tail ++ s = q.tail ++ t := (List.cons.inj h).2
  exact eq_of_tail_prefix ⟨s, htail⟩

/-- A placeholder that a longer text begins with ends before the brace of the next one. -/
theorem Placeholder.prefix_of_prefix_append {p q : Placeholder} {c : Char} {s t : List Char}
    (h : q.word <+: c :: s ++ p.word ++ t) : q.word <+: c :: s := by
  rw [List.append_assoc] at h
  obtain hshort | ⟨rest, hrest⟩ := List.prefix_or_prefix_of_prefix h (List.prefix_append (c :: s) _)
  · exact hshort
  · -- the rest of `q` begins with what begins `p`, unless there is none
    cases rest with
    | nil => exact ⟨[], by rw [← hrest, List.append_nil, List.append_nil]⟩
    | cons d rest =>
      rw [← hrest, List.prefix_append_right_inj] at h
      obtain ⟨rfl, -⟩ := List.cons_prefix_cons.1 h
      refine absurd ?_ q.brace_not_mem_tail
      rw [← (List.cons.inj hrest).2]
      exact List.mem_append_right s List.mem_cons_self

namespace Substitutes

variable {v : Version} {r s t u : List Char}

/-- Nothing is put in where there is no pattern. -/
theorem eq_nil (h : Substitutes v [] t) : t = [] := by
  generalize hs : [] = pattern at h
  cases h with
  | nil => rfl
  | placeholder p _ => cases hs
  | char _ _ => cases hs

/-- A placeholder in front is replaced. -/
theorem of_word_append {p : Placeholder} (h : Substitutes v (p.word ++ s) t) :
    ∃ u, t = p.value v ++ u ∧ Substitutes v s u := by
  generalize hs : p.word ++ s = pattern at h
  cases h with
  | nil => cases hs
  | placeholder q hrest =>
    obtain rfl := Placeholder.eq_of_word_append hs
    obtain rfl := List.append_cancel_left hs
    exact ⟨_, rfl, hrest⟩
  | char hc _ => exact absurd ⟨s, hs⟩ (hc p)

/-- A character at which no placeholder begins is copied. -/
theorem of_cons {c : Char} (hc : ∀ p : Placeholder, ¬ p.word <+: c :: s)
    (h : Substitutes v (c :: s) t) : ∃ u, t = c :: u ∧ Substitutes v s u := by
  generalize hs : c :: s = pattern at h
  cases h with
  | nil => cases hs
  | placeholder p _ => exact absurd ⟨_, hs.symm⟩ (hc p)
  | char _ hrest =>
    obtain ⟨rfl, rfl⟩ := List.cons.inj hs
    exact ⟨_, rfl, hrest⟩

/-- The pattern and the version leave no choice. -/
theorem unique (h : Substitutes v s t) (h' : Substitutes v s u) : t = u := by
  induction h generalizing u with
  | nil => exact h'.eq_nil.symm
  | placeholder p _ ih =>
    obtain ⟨u, rfl, hrest⟩ := h'.of_word_append
    rw [ih hrest]
  | char hc _ ih =>
    obtain ⟨u, rfl, hrest⟩ := h'.of_cons hc
    rw [ih hrest]

/-- What stands before a placeholder is replaced as if it stood alone, and the placeholder is not
missed. -/
theorem append {p : Placeholder} (h : Substitutes v s t) (h' : Substitutes v (p.word ++ u) r) :
    Substitutes v (s ++ p.word ++ u) (t ++ r) := by
  induction h with
  | nil => exact h'
  | placeholder q _ ih =>
    simp only [List.append_assoc] at ih ⊢
    exact ih.placeholder q
  | char hc _ ih => exact ih.char fun q hq => hc q (Placeholder.prefix_of_prefix_append hq)

/-- Filling in the parts of a pattern that was read without overlooking anything is such a pass. -/
theorem of_scanned {parts : List TagPart} (h : Scanned parts) :
    Substitutes v (source parts) (fill v Placeholder.all parts) := by
  induction parts with
  | nil => exact nil
  | cons part parts ih =>
    rw [source_cons, fill_cons]
    cases part with
    | char c => exact (ih h.2).char h.1
    | placeholder p =>
      rw [TagPart.filled, if_pos p.mem_all]
      exact (ih h).placeholder p

end Substitutes

namespace TagRules

/-- The four replacements are such a pass. -/
theorem substitutes_name (rules : TagRules) (v : Version) :
    Substitutes v rules.pattern.toList (rules.name v).toList := by
  have hpass := Substitutes.of_scanned (v := v) (ofTextFrom_spec 0 rules.pattern.toList).2
  rwa [name_eq_fill, String.toList_ofList, ← source_parts]

/-- The four replacements one after the other give what one pass over the pattern gives, and nothing
else is such a pass. So each placeholder that stands in the pattern, wherever it stands, is
replaced, and what surrounds it is treated as if it stood alone. -/
theorem name_substitutes (rules : TagRules) (v : Version) :
    (∀ name : String, rules.name v = name ↔ Substitutes v rules.pattern.toList name.toList) ∧
      ∀ (before after : String) (p : Placeholder),
        { rules with pattern := before ++ String.ofList p.word ++ after }.name v =
          { rules with pattern := before }.name v ++ String.ofList (p.value v) ++
            { rules with pattern := after }.name v := by
  constructor
  · intro name
    constructor
    · rintro rfl
      exact substitutes_name rules v
    · intro h
      exact String.toList_inj.1 ((substitutes_name rules v).unique h)
  · intro before after p
    have hbefore := substitutes_name { rules with pattern := before } v
    have hafter := substitutes_name { rules with pattern := after } v
    have hwhole :=
      substitutes_name { rules with pattern := before ++ String.ofList p.word ++ after } v
    simp only [String.toList_append, String.toList_ofList] at hwhole
    rw [← String.toList_inj]
    simp only [String.toList_append, String.toList_ofList, List.append_assoc]
    exact hwhole.unique (hbefore.append (hafter.placeholder p))

/-- Braces around a placeholder are copied, and the number that is put in makes up no placeholder
with them. -/
example : { pattern := "\x7b\x7bmajor\x7d\x7d-\x7bver\x7bpatch\x7dsion\x7d" : TagRules }.name
    { major := 1, minor := 2, patch := 3 } = "\x7b1\x7d-\x7bver3sion\x7d" := rfl

end TagRules

end ConventionalRelease
