import ConventionalRelease.Commit.Header
import ConventionalRelease.Proofs.Text.Fronts

/-!
# The text of a header

`Header.parse?_eq_some_iff`: a text is read as a header exactly if it is the header written out, its
scope in parentheses or left out. So a header is read the same whatever description follows it.
-/

namespace ConventionalRelease.Header

/-- What stands before the description, with the scope in parentheses or without them. -/
def lead (h : Header) (parens : Bool) : List Char :=
  h.type ++ ((if parens then '(' :: (h.scope ++ [')']) else []) ++
    ((if h.marked then ['!'] else []) ++ [':', ' ']))

/-- The parts of a header are as its text can show them: a type in small letters, a scope that no
parenthesis closes early and that is empty without parentheses, and a description on one line. -/
structure IsProper (h : Header) (parens : Bool) : Prop where
  type_ne_nil : h.type ≠ []
  type_lower : ∀ c ∈ h.type, c.isLower = true
  scope_open : ')' ∉ h.scope
  scope_eq_nil : parens = false → h.scope = []
  description_line : '\n' ∉ h.description

/-- The text is the header written out, its scope in parentheses or left out. -/
def IsWritten (h : Header) (parens : Bool) (s : List Char) : Prop :=
  h.IsProper parens ∧ s = h.lead parens ++ h.description

theorem readMark_append (marked : Bool) {s : List Char} (hs : s.head? ≠ some '!') :
    readMark ((if marked then ['!'] else []) ++ s) = (marked, s) := by
  cases marked with
  | true => rfl
  | false =>
    rw [if_neg Bool.false_ne_true, List.nil_append, readMark]
    intro rest h
    rw [h] at hs
    exact hs rfl

theorem readScope_parens {scope : List Char} (h : ')' ∉ scope) (rest : List Char) :
    readScope ('(' :: (scope ++ ')' :: rest)) = (scope, rest) := by
  have hscope : (scope ++ ')' :: rest).takeWhile (· != ')') = scope :=
    Text.takeWhile_append_of_stops (fun c hc => by simpa using fun e : c = ')' => h (e ▸ hc)) rfl
  rw [readScope, hscope, List.drop_left]
  rfl

theorem readScope_of_not {s : List Char} (h : s.head? ≠ some '(') : readScope s = ([], s) := by
  rw [readScope]
  intro inside hs
  rw [hs] at h
  exact h rfl

/-- A scope is read off its parentheses, or nothing is. -/
theorem readScope_cases (s : List Char) :
    (∃ scope rest, readScope s = (scope, rest) ∧ s = '(' :: (scope ++ ')' :: rest) ∧ ')' ∉ scope) ∨
      readScope s = ([], s) := by
  unfold readScope
  split
  · next inside =>
    simp only [Text.drop_length_takeWhile]
    split
    · next rest hrest =>
      refine .inl ⟨_, rest, rfl, ?_, fun h => ?_⟩
      · rw [← hrest, List.takeWhile_append_dropWhile]
      · simpa using List.all_eq_true.1 List.all_takeWhile _ h
    · exact .inr rfl
  · exact .inr rfl

/-- The mark that was read stands before what is left. -/
theorem readMark_eq {s rest : List Char} {marked : Bool} (h : readMark s = (marked, rest)) :
    s = (if marked then ['!'] else []) ++ rest := by
  unfold readMark at h
  split at h <;> cases h <;> rfl

/-- A header is read in steps: its type, its scope, its mark, and the description after a colon and
a space. -/
theorem parse?_steps {s : List Char} {h : Header} :
    parse? s = some h ↔ s.takeWhile Char.isLower = h.type ∧ h.type ≠ [] ∧ '\n' ∉ h.description ∧
      ∃ rest, readScope (s.dropWhile Char.isLower) = (h.scope, rest) ∧
        readMark rest = (h.marked, ':' :: ' ' :: h.description) := by
  unfold parse?
  simp only [Text.drop_length_takeWhile]
  cases hscope : readScope (s.dropWhile Char.isLower) with
  | mk scope rest =>
    cases hmark : readMark rest with
    | mk marked after =>
      constructor
      · intro hs
        dsimp only at hs
        split at hs
        · next c type description htype =>
          split at hs
          · cases hs
          · next hline =>
            cases hs
            exact ⟨rfl, by rw [htype]; exact List.cons_ne_nil c type, hline, rest, rfl, hmark⟩
        · cases hs
      · rintro ⟨htype, hne, hline, rest', hscope', hmark'⟩
        cases hscope'
        rw [hmark] at hmark'
        cases hmark'
        obtain ⟨c, type, hcons⟩ := List.exists_cons_of_ne_nil hne
        simp only [htype, hcons, if_neg hline]
        rw [← hcons]

/-- A written header is read as it is. -/
theorem parse?_lead_append {h : Header} {parens : Bool} (hproper : h.IsProper parens) :
    parse? (h.lead parens ++ h.description) = some h := by
  have hmark : readMark ((if h.marked then ['!'] else []) ++ ':' :: ' ' :: h.description) =
      (h.marked, ':' :: ' ' :: h.description) := readMark_append h.marked nofun
  have hlead : h.lead parens ++ h.description =
      h.type ++ ((if parens then '(' :: (h.scope ++ [')']) else []) ++
      ((if h.marked then ['!'] else []) ++ ':' :: ' ' :: h.description)) := by
    simp [lead]
  have hstops : Text.stops Char.isLower ((if parens then '(' :: (h.scope ++ [')']) else []) ++
      ((if h.marked then ['!'] else []) ++ ':' :: ' ' :: h.description)) = true := by
    cases parens <;> cases h.marked <;> rfl
  rw [hlead, parse?_steps, Text.takeWhile_append_of_stops hproper.type_lower hstops,
    Text.dropWhile_append_of_stops hproper.type_lower hstops]
  refine ⟨rfl, hproper.type_ne_nil, hproper.description_line, _, ?_, hmark⟩
  cases parens with
  | true => simpa using readScope_parens hproper.scope_open _
  | false =>
    rw [hproper.scope_eq_nil rfl]
    exact readScope_of_not (by cases h.marked <;> simp)

/-- A text is read as a header exactly if it is the header written out. -/
theorem parse?_eq_some_iff {s : List Char} {h : Header} :
    parse? s = some h ↔ ∃ parens, h.IsProper parens ∧ s = h.lead parens ++ h.description := by
  constructor
  · intro hs
    obtain ⟨htype, hne, hline, rest, hscope, hmark⟩ := parse?_steps.1 hs
    have hlower : ∀ c ∈ h.type, c.isLower = true :=
      htype ▸ List.all_eq_true.1 List.all_takeWhile
    have hcut : h.type ++ s.dropWhile Char.isLower = s := htype ▸ List.takeWhile_append_dropWhile
    have hrest := readMark_eq hmark
    rcases readScope_cases (s.dropWhile Char.isLower) with
      ⟨scope, rest', hread, hdrop, hopen⟩ | hread
    · cases hread.symm.trans hscope
      exact ⟨true, ⟨hne, hlower, hopen, nofun, hline⟩, by rw [← hcut, hdrop, hrest]; simp [lead]⟩
    · have hpair := hread.symm.trans hscope
      have hnil : h.scope = [] := (congrArg Prod.fst hpair).symm
      have hdrop : s.dropWhile Char.isLower = rest := congrArg Prod.snd hpair
      exact ⟨false, ⟨hne, hlower, by rw [hnil]; exact List.not_mem_nil, fun _ => hnil, hline⟩, by
        rw [← hcut, hdrop, hrest]; simp [lead]⟩
  · rintro ⟨parens, hproper, rfl⟩
    exact parse?_lead_append hproper

/-- A header is read the same whatever description follows it on the line. -/
theorem parse?_lead_append_description {h : Header} {parens : Bool} (hproper : h.IsProper parens)
    {description : List Char} (hline : '\n' ∉ description) :
    parse? (h.lead parens ++ description) = some { h with description } :=
  parse?_lead_append (h := { h with description }) { hproper with description_line := hline }

end ConventionalRelease.Header
