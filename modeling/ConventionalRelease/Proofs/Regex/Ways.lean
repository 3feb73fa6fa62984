import ConventionalRelease.Proofs.Regex.Literal

/-!
# What the ways to match are

Without anchors, what an expression matches does not depend on where it stands: it goes through one
of certain texts, and records certain groups on the way (`Regex.Reads`). What it reads follows from
what its parts read, for one character of a set and its repetitions (`reads_one`, `reads_many_one`),
for options, groups and sequences (`Reads.optional`, `Reads.group`, `Reads.sequence_cons`). Between
the anchors of the text's start and end it finds the whole text or nothing (`search_whole`).
-/

namespace ConventionalRelease.Regex

/-- The ways to match from any place are the texts of a kind, each with the groups that it records,
latest first. -/
def Reads (r : Regex) (found : List Char → List (Nat × List Char) → Prop) : Prop :=
  ∀ before after groups w', w' ∈ r.ways ⟨before, after, groups⟩ ↔
    ∃ text recorded rest, found text recorded ∧ after = text ++ rest ∧
      w' = ⟨text.reverse ++ before, rest, recorded ++ groups⟩

/-- What was gone through is what is recorded. -/
theorem record_append (before text rest : List Char) (groups : List (Nat × List Char)) (index : Nat)
    (start : Progress) (h : start.after = text ++ rest) :
    Progress.record ⟨before, rest, groups⟩ index start =
      ⟨before, rest, (index, text) :: groups⟩ := by
  rw [Progress.record, Progress.left, Progress.left, h, List.length_append]
  simp

/-- One character of a set is read. -/
theorem reads_one (s : CharSet) :
    Reads (.one s) fun text recorded => ∃ c, s.contains c = true ∧ text = [c] ∧ recorded = [] := by
  intro before after groups w'
  rw [ways]
  cases after with
  | nil => simp
  | cons c rest =>
    by_cases hc : s.contains c = true
    · simp [hc]
    · simp only [hc, Bool.false_eq_true, if_false, List.not_mem_nil, false_iff]
      rintro ⟨_, _, _, ⟨d, hd, rfl, rfl⟩, htext, -⟩
      cases htext
      exact hc hd

/-- A repetition of one character goes through any front of such characters, whatever places were
seen before. -/
theorem mem_repeatFrom_one {s : CharSet} {after : List Char} (before : List Char)
    (groups : List (Nat × List Char)) (seen : List Nat) (n : Nat)
    (hseen : ∀ k ∈ seen, after.length ≤ k) (hn : after.length < n) (w' : Progress) :
    w' ∈ (repeatFrom (ways (.one s)) true n ⟨before, after, groups⟩ seen).1 ↔
      ∃ text rest, text ≠ [] ∧ (∀ c ∈ text, s.contains c = true) ∧ after = text ++ rest ∧
        w' = ⟨text.reverse ++ before, rest, groups⟩ := by
  induction after generalizing before seen n with
  | nil =>
    obtain ⟨n, rfl⟩ := Nat.exists_eq_add_one.mpr hn
    simp [repeatFrom, ways]
  | cons c after ih =>
    obtain ⟨n, rfl⟩ := Nat.exists_eq_add_one.mpr (Nat.zero_lt_of_lt hn)
    rw [repeatFrom, ways]
    by_cases hc : s.contains c = true
    · have hnew : after.length ∉ seen := by
        intro hmem
        have := hseen _ hmem
        simp only [List.length_cons] at this
        omega
      have hseen' : ∀ k ∈ after.length :: seen, after.length ≤ k := by
        intro k hk
        rcases List.mem_cons.1 hk with rfl | hk
        · exact Nat.le_refl _
        · have := hseen k hk
          simp only [List.length_cons] at this
          omega
      have ih := ih (c :: before) (after.length :: seen) n hseen' (by simpa using hn)
      have hless : after.length ≠ (c :: after).length := by simp
      simp only [hc, if_true, List.foldl_cons, List.foldl_nil, Progress.left, if_neg hnew,
        if_neg hless, List.nil_append, List.mem_append, List.mem_singleton, ih]
      constructor
      · rintro (⟨text, rest, hne, hall, rfl, rfl⟩ | rfl)
        · exact ⟨c :: text, rest, List.cons_ne_nil c text, List.forall_mem_cons.2 ⟨hc, hall⟩,
            rfl, by simp⟩
        · exact ⟨[c], after, List.cons_ne_nil c [], by simpa using hc, rfl, rfl⟩
      · rintro ⟨text, rest, hne, hall, htext, rfl⟩
        obtain ⟨d, text, rfl⟩ := List.exists_cons_of_ne_nil hne
        obtain ⟨rfl, rfl⟩ := List.cons.inj htext
        cases text with
        | nil => exact .inr rfl
        | cons d text =>
          exact .inl ⟨d :: text, rest, List.cons_ne_nil d text, (List.forall_mem_cons.1 hall).2,
            rfl, by simp⟩
    · simp only [hc, Bool.false_eq_true, if_false, List.foldl_nil, List.not_mem_nil, false_iff]
      rintro ⟨text, rest, hne, hall, htext, -⟩
      obtain ⟨d, text, rfl⟩ := List.exists_cons_of_ne_nil hne
      obtain ⟨rfl, -⟩ := List.cons.inj htext
      exact hc (hall c List.mem_cons_self)

/-- A repetition of one character of a set reads the texts of such characters that are not empty. -/
theorem reads_many_one (s : CharSet) :
    Reads (.many true (.one s)) fun text recorded => text ≠ [] ∧ (∀ c ∈ text, s.contains c = true) ∧
      recorded = [] := by
  intro before after groups w'
  have hnone : ∀ k ∈ ([] : List Nat), after.length ≤ k := fun k hk => absurd hk List.not_mem_nil
  refine (mem_repeatFrom_one before groups [] _ hnone (Nat.lt_succ_self _) w').trans ?_
  constructor
  · rintro ⟨text, rest, hne, hall, rfl, rfl⟩
    exact ⟨text, [], rest, ⟨hne, hall, rfl⟩, rfl, rfl⟩
  · rintro ⟨text, _, rest, ⟨hne, hall, rfl⟩, rfl, rfl⟩
    exact ⟨text, rest, hne, hall, rfl, rfl⟩

namespace Reads

variable {r : Regex} {found more : List Char → List (Nat × List Char) → Prop}

/-- What is read may be described in other words. -/
theorem congr (h : Reads r found)
    (hfound : ∀ text recorded, found text recorded ↔ more text recorded) :
    Reads r more := by
  intro before after groups w'
  simp only [h before after groups w', hfound]

/-- What is optional is read, or nothing. -/
theorem optional (h : Reads r found) :
    Reads (Regex.optional true r) fun text recorded => found text recorded ∨ text = [] ∧
      recorded = [] := by
  intro before after groups w'
  rw [Regex.optional, if_pos rfl, ways, List.mem_append, h before after groups w', ways,
    List.mem_singleton]
  constructor
  · rintro (⟨text, recorded, rest, hfound, rfl, rfl⟩ | rfl)
    · exact ⟨text, recorded, rest, .inl hfound, rfl, rfl⟩
    · exact ⟨[], [], after, .inr ⟨rfl, rfl⟩, rfl, rfl⟩
  · rintro ⟨text, recorded, rest, hfound | ⟨rfl, rfl⟩, rfl, rfl⟩
    · exact .inl ⟨text, recorded, rest, hfound, rfl, rfl⟩
    · exact .inr rfl

/-- What a group reads is recorded. -/
theorem group (h : Reads r found) (index : Nat) :
    Reads (.group index r) fun text recorded => ∃ inner, found text inner ∧
      recorded = (index, text) :: inner := by
  intro before after groups w'
  rw [ways, List.mem_map]
  constructor
  · rintro ⟨v, hv, rfl⟩
    obtain ⟨text, inner, rest, hfound, rfl, rfl⟩ := (h before after groups v).1 hv
    exact ⟨text, _, rest, ⟨inner, hfound, rfl⟩, rfl, record_append _ _ _ _ _ _ rfl⟩
  · rintro ⟨text, _, rest, ⟨inner, hfound, rfl⟩, rfl, rfl⟩
    exact ⟨_, (h before _ groups _).2 ⟨text, inner, rest, hfound, rfl, rfl⟩,
      record_append _ _ _ _ _ _ rfl⟩

/-- A sequence reads its first part and then the others. -/
theorem sequence_cons {parts : List Regex} (h : Reads r found)
    (hparts : Reads (sequence parts) more) :
    Reads (sequence (r :: parts)) fun text recorded => ∃ first inner rest later,
      found first inner ∧ more rest later ∧ text = first ++ rest ∧ recorded = later ++ inner := by
  intro before after groups w'
  rw [ways_sequence_cons, List.mem_flatMap]
  constructor
  · rintro ⟨v, hv, hw'⟩
    obtain ⟨first, inner, s, hfirst, rfl, rfl⟩ := (h before after groups v).1 hv
    obtain ⟨rest, later, t, hrest, rfl, rfl⟩ := (hparts _ _ _ w').1 hw'
    exact ⟨first ++ rest, later ++ inner, t, ⟨first, inner, rest, later, hfirst, hrest, rfl, rfl⟩,
      by simp, by simp⟩
  · rintro ⟨_, _, t, ⟨first, inner, rest, later, hfirst, hrest, rfl, rfl⟩, rfl, rfl⟩
    refine ⟨⟨first.reverse ++ before, rest ++ t, inner ++ groups⟩, ?_, ?_⟩
    · exact (h _ _ _ _).2 ⟨first, inner, rest ++ t, hfirst, by simp, rfl⟩
    · exact (hparts _ _ _ _).2 ⟨rest, later, t, hrest, rfl, by simp⟩

end Reads

/-- Nothing is left to read. -/
theorem reads_nil : Reads (sequence []) fun text recorded => text = [] ∧ recorded = [] := by
  intro before after groups w'
  rw [sequence, ways, List.mem_singleton]
  constructor
  · rintro rfl
    exact ⟨[], [], after, ⟨rfl, rfl⟩, rfl, rfl⟩
  · rintro ⟨_, _, rest, ⟨rfl, rfl⟩, rfl, rfl⟩
    rfl

/-- A character that stands for itself is read. -/
theorem reads_literal (c : Char) :
    Reads (literal c) fun text recorded => text = [c] ∧ recorded = [] := by
  refine (reads_one (.single c)).congr fun text recorded => ?_
  simp only [CharSet.contains_single, beq_iff_eq]
  constructor
  · rintro ⟨_, rfl, rfl, rfl⟩
    exact ⟨rfl, rfl⟩
  · rintro ⟨rfl, rfl⟩
    exact ⟨c, rfl, rfl, rfl⟩

/-- The rest of a line is read, or any front of it. -/
theorem reads_restOfLine : Reads restOfLine fun text recorded => '\n' ∉ text ∧ recorded = [] := by
  refine (reads_many_one .exceptLineFeed).optional.congr fun text recorded => ?_
  have hline : (∀ c ∈ text, CharSet.exceptLineFeed.contains c = true) ↔ '\n' ∉ text := by
    simp only [CharSet.contains_exceptLineFeed, bne_iff_ne]
    exact ⟨fun h hmem => h _ hmem rfl, fun h c hc e => h (e ▸ hc)⟩
  rw [hline]
  constructor
  · rintro (⟨-, hline, rfl⟩ | ⟨rfl, rfl⟩)
    · exact ⟨hline, rfl⟩
    · exact ⟨List.not_mem_nil, rfl⟩
  · rintro ⟨hline, rfl⟩
    cases text with
    | nil => exact .inr ⟨rfl, rfl⟩
    | cons c text => exact .inl ⟨List.cons_ne_nil c text, hline, rfl⟩

/-! ## Whole texts -/

/-- What starts at the start of the text is searched for there alone. -/
theorem search_textStart (parts : List Regex) (text : List Char) :
    (sequence (.anchor .textStart :: parts)).search text =
      ((sequence parts).ways ⟨[], text, []⟩).head? := by
  have hways : ∀ before rest, (sequence (.anchor .textStart :: parts)).ways ⟨before, rest, []⟩ =
      if before.isEmpty then (sequence parts).ways ⟨before, rest, []⟩ else [] := by
    intro before rest
    rw [ways_sequence_cons, ways, Anchor.holds]
    cases before <;> simp
  have hlater : ∀ (before rest : List Char), before ≠ [] →
      (sequence (.anchor .textStart :: parts)).searchFrom before rest = none := by
    intro before rest hne
    induction rest generalizing before with
    | nil => rw [searchFrom, hways, if_neg (by simpa using hne)]; rfl
    | cons c rest ih =>
      rw [searchFrom, hways, if_neg (by simpa using hne)]
      exact ih (c :: before) (List.cons_ne_nil c before)
  cases text with
  | nil => rw [search, searchFrom, hways]; rfl
  | cons c rest =>
    rw [search, searchFrom, hlater [c] rest (List.cons_ne_nil c []), hways, if_pos List.isEmpty_nil]
    cases ((sequence parts).ways ⟨[], c :: rest, []⟩).head? <;> rfl

/-- Up to the end of the text, the whole text is read. -/
theorem mem_ways_whole {parts : List Regex} {found : List Char → List (Nat × List Char) → Prop}
    (h : Reads (sequence parts) found) (text : List Char) (w' : Progress) :
    w' ∈ (sequence (parts ++ [.anchor .textEnd])).ways ⟨[], text, []⟩ ↔
      ∃ recorded, found text recorded ∧ w' = ⟨text.reverse, [], recorded⟩ := by
  rw [ways_sequence_append, List.mem_flatMap]
  constructor
  · rintro ⟨v, hv, hw'⟩
    obtain ⟨whole, recorded, rest, hfound, rfl, rfl⟩ := (h _ _ _ v).1 hv
    cases rest with
    | nil =>
      rw [sequence, ways, Anchor.holds] at hw'
      obtain rfl : w' = _ := by simpa using hw'
      exact ⟨recorded, by simpa using hfound, by simp⟩
    | cons c rest => simp [sequence, ways, Anchor.holds] at hw'
  · rintro ⟨recorded, hfound, rfl⟩
    refine ⟨⟨text.reverse, [], recorded⟩, ?_, by simp [sequence, ways, Anchor.holds]⟩
    exact (h _ _ _ _).2 ⟨text, recorded, [], hfound, by simp, by simp⟩

/-- An expression between the anchors of the text's start and end finds the whole text or
nothing. -/
theorem search_whole {parts : List Regex} {found : List Char → List (Nat × List Char) → Prop}
    (h : Reads (sequence parts) found) (text : List Char) :
    match (sequence (.anchor .textStart :: (parts ++ [.anchor .textEnd]))).search text with
    | some w => ∃ recorded, found text recorded ∧ w = ⟨text.reverse, [], recorded⟩
    | none => ∀ recorded, ¬ found text recorded := by
  rw [search_textStart]
  cases hhead : ((sequence (parts ++ [.anchor .textEnd])).ways ⟨[], text, []⟩).head? with
  | some w => exact (mem_ways_whole h text w).1 (List.mem_of_head? hhead)
  | none =>
    intro recorded hfound
    have hmem := (mem_ways_whole h text _).2 ⟨recorded, hfound, rfl⟩
    rw [List.head?_eq_none_iff.1 hhead] at hmem
    exact List.not_mem_nil hmem

end ConventionalRelease.Regex
