import ConventionalRelease.Config.Validation
import ConventionalRelease.Proofs.Text.Substitute
import ConventionalRelease.Proofs.Version.Text
import ConventionalRelease.Version.Tag

/-!
# Names of tags and their versions

The placeholders of a tag's pattern are replaced one kind after the other, but what is put in never
makes up a placeholder with what surrounds it. So the name is the pattern with all placeholders
replaced at once (`TagRules.name_eq_fill`). From this it follows which patterns name every version
so that it is read back (`TagRules.parse_name_iff`): only those that show the whole version, in its
own form, after one mark at most.
-/

namespace ConventionalRelease

/-! ## The parts of a pattern -/

/-- A placeholder, for the whole version or for one of its numbers. -/
inductive Placeholder where
  | version
  | major
  | minor
  | patch
  deriving DecidableEq, Repr

namespace Placeholder

/-- All placeholders, in the order in which they are replaced. -/
def all : List Placeholder := [version, major, minor, patch]

/-- What stands between the braces. -/
def name : Placeholder → List Char
  | version => ['v', 'e', 'r', 's', 'i', 'o', 'n']
  | major => ['m', 'a', 'j', 'o', 'r']
  | minor => ['m', 'i', 'n', 'o', 'r']
  | patch => ['p', 'a', 't', 'c', 'h']

/-- What is written in the pattern, without the brace in front. -/
def tail (p : Placeholder) : List Char := p.name ++ ['\x7d']

/-- What is written in the pattern. -/
def word (p : Placeholder) : List Char := '\x7b' :: p.tail

/-- What is put in for a version. -/
def value (v : Version) : Placeholder → List Char
  | version => v.characters
  | major => decimal v.major
  | minor => decimal v.minor
  | patch => decimal v.patch

/-- A placeholder that a text begins with. -/
def atFront? (s : List Char) : Option Placeholder :=
  all.find? fun p => p.word.isPrefixOf s

/-- Every kind of placeholder is looked for. -/
theorem mem_all (p : Placeholder) : p ∈ all := by
  cases p <;> decide

/-- A placeholder that is found is there. -/
theorem prefix_of_atFront? {p : Placeholder} {s : List Char} (h : atFront? s = some p) :
    p.word <+: s :=
  List.isPrefixOf_iff_prefix.1 (List.find?_some (p := fun q : Placeholder => q.word.isPrefixOf s) h)

/-- Where none is found there is none. -/
theorem not_prefix_of_atFront? {s : List Char} (h : atFront? s = none) (p : Placeholder) :
    ¬ p.word <+: s := fun hp =>
  List.find?_eq_none.1 h p (mem_all p) (List.isPrefixOf_iff_prefix.2 hp)

/-- A character that may stand in a placeholder after its first one. -/
def isTailChar (c : Char) : Bool :=
  c ∈ all.flatMap tail

/-- No placeholder begins within another one. -/
theorem isTailChar_of_mem {p : Placeholder} {c : Char} (h : c ∈ p.tail) : isTailChar c = true := by
  exact decide_eq_true (List.mem_flatMap.2 ⟨p, mem_all p, h⟩)

/-- A brace opens a placeholder, and stands nowhere else in it. -/
theorem brace_not_mem_tail (p : Placeholder) : '\x7b' ∉ p.tail := by
  cases p <;> decide

/-- Of two placeholders neither begins with the other. -/
theorem eq_of_tail_prefix {p q : Placeholder} {s : List Char} (h : p.tail <+: q.tail ++ s) :
    p = q := by
  cases p <;> cases q <;> first | rfl | simp [tail, name] at h

/-- What is put in begins with a digit. -/
theorem value_eq_cons (v : Version) (p : Placeholder) : ∃ c s, p.value v = c :: s ∧ c.isDigit := by
  have hdecimal (n : UInt64) : ∃ c s, decimal n = c :: s ∧ c.isDigit := by
    obtain ⟨c, s, hn, hc, -⟩ := decimal_eq_cons n
    exact ⟨c, s, hn, hc⟩
  cases p with
  | version =>
    obtain ⟨c, s, hn, hc⟩ := hdecimal v.major
    exact ⟨c, _, by rw [value, Version.characters_eq, hn]; rfl, hc⟩
  | major => exact hdecimal _
  | minor => exact hdecimal _
  | patch => exact hdecimal _

/-- What is put in opens no placeholder. -/
theorem brace_not_mem_value (v : Version) (p : Placeholder) : '\x7b' ∉ p.value v := by
  have hdecimal (n : UInt64) : '\x7b' ∉ decimal n := fun h => by
    have := isDigit_of_mem_decimal h
    simp [Char.isDigit] at this
  cases p with
  | version =>
    intro h
    exact absurd (Version.mem_characters h) (by decide)
  | major => exact hdecimal _
  | minor => exact hdecimal _
  | patch => exact hdecimal _

end Placeholder

/-- A part of the pattern of a tag: a character that stands for itself, or a placeholder. -/
inductive TagPart where
  | char (c : Char)
  | placeholder (p : Placeholder)
  deriving DecidableEq, Repr

namespace TagPart

/-- The part as it is written in the pattern. -/
def source : TagPart → List Char
  | char c => [c]
  | placeholder p => p.word

/-- The part after the placeholders of some kinds have been replaced. -/
def filled (v : Version) (done : List Placeholder) : TagPart → List Char
  | char c => [c]
  | placeholder p => if p ∈ done then p.value v else p.word

/-- The parts of a pattern whose first `skip` characters belong to a part already read. -/
def ofTextFrom : Nat → List Char → List TagPart
  | _, [] => []
  | skip + 1, _ :: rest => ofTextFrom skip rest
  | 0, c :: rest =>
    match Placeholder.atFront? (c :: rest) with
    | some p => placeholder p :: ofTextFrom p.tail.length rest
    | none => char c :: ofTextFrom 0 rest

/-- The parts of a pattern. -/
def ofText (s : List Char) : List TagPart :=
  ofTextFrom 0 s

end TagPart

/-- The parts of a pattern after the placeholders of some kinds have been replaced. -/
def fill (v : Version) (done : List Placeholder) (parts : List TagPart) : List Char :=
  parts.flatMap (TagPart.filled v done)

/-- The first part comes first. -/
theorem fill_cons (v : Version) (done : List Placeholder) (part : TagPart) (parts : List TagPart) :
    fill v done (part :: parts) = part.filled v done ++ fill v done parts :=
  List.flatMap_cons

/-- It matters which kinds have been replaced, not in which order. -/
theorem fill_congr {v : Version} {done done' : List Placeholder} (h : ∀ p, p ∈ done ↔ p ∈ done')
    (parts : List TagPart) : fill v done parts = fill v done' parts := by
  have hpart (part : TagPart) : part.filled v done = part.filled v done' := by
    cases part with
    | char c => rfl
    | placeholder p => simp only [TagPart.filled, h p]
  exact congrArg (parts.flatMap ·) (funext hpart)

/-- The parts of a pattern as they are written in it. -/
def source (parts : List TagPart) : List Char :=
  parts.flatMap TagPart.source

/-- The first part is written first. -/
theorem source_cons (part : TagPart) (parts : List TagPart) :
    source (part :: parts) = part.source ++ source parts :=
  List.flatMap_cons

/-- Before any replacement the parts are as they are written. -/
theorem fill_nil (v : Version) (parts : List TagPart) : fill v [] parts = source parts := by
  have hpart (part : TagPart) : part.filled v [] = part.source := by
    cases part with
    | char c => rfl
    | placeholder p => rfl
  exact congrArg (parts.flatMap ·) (funext hpart)

/-- No placeholder was overlooked: none begins at a part that stands for itself. -/
def Scanned : List TagPart → Prop
  | [] => True
  | .char c :: rest => (∀ p : Placeholder, ¬ p.word <+: c :: source rest) ∧ Scanned rest
  | .placeholder _ :: rest => Scanned rest

/-- Reading a pattern loses nothing and overlooks nothing. -/
theorem ofTextFrom_spec (skip : Nat) (s : List Char) :
    source (TagPart.ofTextFrom skip s) = s.drop skip ∧ Scanned (TagPart.ofTextFrom skip s) := by
  induction s generalizing skip with
  | nil => simp [TagPart.ofTextFrom, source, Scanned]
  | cons c rest ih =>
    cases skip with
    | succ skip => exact ih skip
    | zero =>
      rw [TagPart.ofTextFrom]
      split
      · next p hp =>
        obtain ⟨hsource, hscanned⟩ := ih p.tail.length
        obtain ⟨t, ht⟩ := Placeholder.prefix_of_atFront? hp
        rw [Placeholder.word, List.cons_append] at ht
        obtain ⟨rfl, rfl⟩ := List.cons.inj ht
        refine ⟨?_, hscanned⟩
        rw [source_cons, hsource, List.drop_left]
        rfl
      · next hp =>
        obtain ⟨hsource, hscanned⟩ := ih 0
        refine ⟨congrArg (c :: ·) hsource, ?_, hscanned⟩
        rw [hsource]
        exact Placeholder.not_prefix_of_atFront? hp

/-- A digit does not stand in a placeholder. -/
theorem isTailChar_eq_false_of_isDigit {c : Char} (h : c.isDigit) :
    Placeholder.isTailChar c = false := by
  refine decide_eq_false fun hc => ?_
  simp only [Placeholder.all, List.flatMap_cons, List.flatMap_nil, Placeholder.tail,
    Placeholder.name, List.cons_append, List.nil_append, List.append_nil, List.mem_cons,
    List.not_mem_nil, or_false] at hc
  rcases hc with
    rfl | rfl | rfl | rfl | rfl | rfl | rfl | rfl | rfl | rfl | rfl | rfl | rfl | rfl | rfl | rfl |
    rfl | rfl | rfl | rfl | rfl | rfl | rfl | rfl | rfl | rfl <;> cases h

/-- What is left of a placeholder begins the parts only where it begins the pattern. -/
theorem tail_prefix_source {v : Version} {done : List Placeholder} {u : List Char}
    {parts : List TagPart} (hu : ∀ c ∈ u, Placeholder.isTailChar c = true)
    (h : u <+: fill v done parts) : u <+: source parts := by
  induction parts generalizing u with
  | nil => exact h
  | cons part parts ih =>
    cases u with
    | nil => exact List.nil_prefix
    | cons d u =>
      have hd := hu d List.mem_cons_self
      cases part with
      | char c =>
        rw [fill_cons] at h
        obtain ⟨hdc, htail⟩ := List.cons_prefix_cons.1 h
        rw [source_cons]
        exact List.cons_prefix_cons.2 ⟨hdc, ih (fun e he => hu e (List.mem_cons_of_mem _ he)) htail⟩
      | placeholder p =>
        -- what stands here begins with a digit or a brace, and `d` is neither
        exfalso
        rw [fill_cons, TagPart.filled] at h
        split at h
        · obtain ⟨c, s, hv, hc⟩ := p.value_eq_cons v
          rw [hv] at h
          rw [(List.cons_prefix_cons.1 h).1, isTailChar_eq_false_of_isDigit hc] at hd
          cases hd
        · rw [Placeholder.word] at h
          rw [(List.cons_prefix_cons.1 h).1] at hd
          revert hd
          decide

/-- One more kind of placeholder is replaced by a substitution. -/
theorem substitute_fill (v : Version) (p : Placeholder) (done : List Placeholder)
    {parts : List TagPart} (hp : p ∉ done) (h : Scanned parts) :
    Text.substitute p.word (p.value v) (fill v done parts) = fill v (p :: done) parts := by
  induction parts with
  | nil => rfl
  | cons part parts ih =>
    cases part with
    | char c =>
      obtain ⟨hc, h⟩ := h
      rw [fill_cons, fill_cons, TagPart.filled, TagPart.filled, List.singleton_append,
        List.singleton_append, Text.substitute_cons, ih h]
      · intro hword
        obtain ⟨rfl, htail⟩ := List.cons_prefix_cons.1 hword
        refine hc p (List.cons_prefix_cons.2 ⟨rfl, ?_⟩)
        exact tail_prefix_source (fun d hd => Placeholder.isTailChar_of_mem hd) htail
    | placeholder q =>
      rw [fill_cons, fill_cons, TagPart.filled, TagPart.filled]
      by_cases hq : q ∈ done
      · rw [if_pos hq, if_pos (List.mem_cons_of_mem _ hq), Placeholder.word,
          Text.substitute_append_of_not_mem (q.brace_not_mem_value v), ← Placeholder.word, ih h]
      · rw [if_neg hq]
        by_cases hpq : q = p
        · subst hpq
          rw [if_pos List.mem_cons_self, Placeholder.word, Text.substitute_word_append,
            ← Placeholder.word, ih h]
        · rw [if_neg (by simp [hq, hpq]), Placeholder.word, Placeholder.word, List.cons_append,
            Text.substitute_cons, Text.substitute_append_of_not_mem q.brace_not_mem_tail,
            ← Placeholder.word, ih h]
          · rfl
          · intro hword
            exact hpq (Placeholder.eq_of_tail_prefix (List.cons_prefix_cons.1 hword).2).symm

namespace TagRules

/-- The parts of the pattern. -/
def parts (rules : TagRules) : List TagPart :=
  TagPart.ofText rules.pattern.toList

/-- The parts are those that the pattern is written of. -/
theorem source_parts (rules : TagRules) : source rules.parts = rules.pattern.toList :=
  (ofTextFrom_spec 0 _).1

/-- The name of a tag is its pattern with all placeholders replaced at once. -/
theorem name_eq_fill (rules : TagRules) (v : Version) :
    rules.name v = String.ofList (fill v Placeholder.all rules.parts) := by
  have hscanned : Scanned rules.parts := (ofTextFrom_spec 0 _).2
  have hsource : rules.pattern.toList = fill v [] rules.parts := by
    rw [fill_nil, source_parts]
  have hversion := substitute_fill v .version [] (by decide) hscanned
  have hmajor := substitute_fill v .major [.version] (by decide) hscanned
  have hminor := substitute_fill v .minor [.major, .version] (by decide) hscanned
  have hpatch := substitute_fill v .patch [.minor, .major, .version] (by decide) hscanned
  have hwords : "\x7bversion\x7d".toList = Placeholder.version.word ∧
      "\x7bmajor\x7d".toList = Placeholder.major.word ∧
        "\x7bminor\x7d".toList = Placeholder.minor.word ∧
      "\x7bpatch\x7d".toList = Placeholder.patch.word := ⟨rfl, rfl, rfl, rfl⟩
  obtain ⟨hv, hM, hm, hp⟩ := hwords
  unfold name
  rw [hv, hM, hm, hp, hsource]
  refine congrArg String.ofList ?_
  calc _ = fill v [.patch, .minor, .major, .version] rules.parts := by
        rw [← hpatch, ← hminor, ← hmajor, ← hversion]
        rfl
    _ = fill v Placeholder.all rules.parts := fill_congr (fun p => by cases p <;> decide) _

/-! ## Patterns that name every version -/

/-- What is put in for a part is never nothing. -/
theorem fill_ne_nil (v : Version) (done : List Placeholder) (part : TagPart)
    (parts : List TagPart) :
    fill v done (part :: parts) ≠ [] := by
  rw [fill_cons]
  cases part with
  | char c => exact List.cons_ne_nil _ _
  | placeholder p =>
    obtain ⟨c, s, hv, -⟩ := p.value_eq_cons v
    rw [TagPart.filled, hv]
    split
    · exact List.cons_ne_nil _ _
    · exact List.cons_ne_nil _ _

/-- What is no digit is not put in: it stands in the pattern. -/
theorem eq_char_cons_of_fill {v : Version} {parts : List TagPart} {c : Char} {s : List Char}
    (hc : c.isDigit = false) (h : fill v Placeholder.all parts = c :: s) :
    ∃ rest, parts = .char c :: rest ∧ fill v Placeholder.all rest = s := by
  cases parts with
  | nil => cases h
  | cons part rest =>
    rw [fill_cons] at h
    cases part with
    | char d =>
      obtain ⟨rfl, hrest⟩ := List.cons.inj h
      exact ⟨rest, rfl, hrest⟩
    | placeholder p =>
      obtain ⟨d, t, hv, hd⟩ := p.value_eq_cons v
      rw [TagPart.filled, if_pos p.mem_all, hv] at h
      rw [(List.cons.inj h).1, hc] at hd
      cases hd

/-- What differs from version to version is put in. -/
theorem eq_placeholder_cons_of_fill {v w : Version} {parts : List TagPart} {c d : Char}
    {s t : List Char} (hcd : c ≠ d) (hv : fill v Placeholder.all parts = c :: s)
    (hw : fill w Placeholder.all parts = d :: t) :
    ∃ p rest, parts = .placeholder p :: rest ∧ p.value v ++ fill v Placeholder.all rest = c :: s ∧
      p.value w ++ fill w Placeholder.all rest = d :: t := by
  cases parts with
  | nil => cases hv
  | cons part rest =>
    rw [fill_cons] at hv hw
    cases part with
    | char e => exact absurd ((List.cons.inj hv).1.symm.trans (List.cons.inj hw).1) hcd
    | placeholder p =>
      rw [TagPart.filled, if_pos p.mem_all] at hv hw
      exact ⟨p, rest, rfl, hv, hw⟩

/-- A version whose numbers all differ, and differ from those of `otherTrial`. -/
def trial : Version := { major := 1, minor := 2, patch := 3 }

/-- A version whose numbers all differ, and differ from those of `trial`. -/
def otherTrial : Version := { major := 4, minor := 5, patch := 6 }

/-- Two versions show which placeholders make up the whole text of a version. -/
theorem parts_of_fill_trial {parts : List TagPart}
    (h : fill trial Placeholder.all parts = ['1', '.', '2', '.', '3'])
    (h' : fill otherTrial Placeholder.all parts = ['4', '.', '5', '.', '6']) :
    parts = [.placeholder .version] ∨
      parts = [.placeholder .major, .char '.', .placeholder .minor, .char '.',
        .placeholder .patch] := by
  have hnil {rest : List TagPart} (hrest : fill trial Placeholder.all rest = []) : rest = [] := by
    cases rest with
    | nil => rfl
    | cons part rest => exact absurd hrest (fill_ne_nil _ _ _ _)
  obtain ⟨p, rest, rfl, h₁, h₁'⟩ := eq_placeholder_cons_of_fill (by decide) h h'
  cases p with
  | minor => exact absurd (List.cons.inj h₁).1 (by decide)
  | patch => exact absurd (List.cons.inj h₁).1 (by decide)
  | version =>
    have hrest : trial.characters ++ fill trial Placeholder.all rest = trial.characters ++ [] := h₁
    exact .inl (by rw [hnil (List.append_cancel_left hrest)])
  | major =>
    obtain ⟨rest, rfl, h₂⟩ := eq_char_cons_of_fill (c := '.') (by decide) (List.cons.inj h₁).2
    have h₂' := (List.cons.inj (List.cons.inj h₁').2).2
    obtain ⟨p, rest, rfl, h₃, h₃'⟩ := eq_placeholder_cons_of_fill (by decide) h₂ h₂'
    cases p with
    | version => exact absurd (List.cons.inj h₃).1 (by decide)
    | major => exact absurd (List.cons.inj h₃).1 (by decide)
    | patch => exact absurd (List.cons.inj h₃).1 (by decide)
    | minor =>
      obtain ⟨rest, rfl, h₄⟩ := eq_char_cons_of_fill (c := '.') (by decide) (List.cons.inj h₃).2
      have h₄' := (List.cons.inj (List.cons.inj h₃').2).2
      obtain ⟨p, rest, rfl, h₅, -⟩ := eq_placeholder_cons_of_fill (by decide) h₄ h₄'
      cases p with
      | version => exact absurd (List.cons.inj h₅).1 (by decide)
      | major => exact absurd (List.cons.inj h₅).1 (by decide)
      | minor => exact absurd (List.cons.inj h₅).1 (by decide)
      | patch => exact .inr (by rw [hnil (List.cons.inj h₅).2])

/-- The patterns that show the whole version, in its own form, after one mark at most. -/
def exactPatterns : List String :=
  ["\x7bversion\x7d", "v\x7bversion\x7d", "\x7bmajor\x7d.\x7bminor\x7d.\x7bpatch\x7d",
    "v\x7bmajor\x7d.\x7bminor\x7d.\x7bpatch\x7d"]

/-- A pattern is known by its parts. -/
theorem pattern_eq_of_parts {rules : TagRules} {parts : List TagPart} (h : rules.parts = parts) :
    rules.pattern = String.ofList (source parts) := by
  rw [← h, source_parts, String.ofList_toList]

/-- The numbers with dots between them are those of the version. -/
theorem fill_numbers (v : Version) : fill v Placeholder.all
    [.placeholder .major, .char '.', .placeholder .minor, .char '.', .placeholder .patch] =
      v.coreText := by
  simp [fill, TagPart.filled, Placeholder.mem_all, Placeholder.value, Version.coreText]

/-- Without a configured pattern a tag is named by the numbers of its version. -/
theorem name_default (v : Version) : ({} : TagRules).name v = String.ofList v.coreText := by
  have hparts : ({} : TagRules).parts =
      [.placeholder .major, .char '.', .placeholder .minor, .char '.', .placeholder .patch] := rfl
  rw [name_eq_fill, hparts, fill_numbers]

/-- The whole version is put in for each of these patterns, with a mark or without. -/
theorem dropMark_name {rules : TagRules} (h : rules.pattern ∈ exactPatterns) {v : Version}
    (hv : v.isPlain = true) : Version.dropMark (rules.name v).toList = v.characters := by
  have hcore : Version.dropMark v.coreText = v.coreText := by
    rw [← Version.characters_of_isPlain hv, Version.dropMark_characters]
  have hversion : fill v Placeholder.all [.placeholder .version] = v.coreText := by
    rw [← Version.characters_of_isPlain hv]
    exact List.append_nil _
  have hmark (parts : List TagPart) :
      Version.dropMark (fill v Placeholder.all (.char 'v' :: parts)) =
      fill v Placeholder.all parts := rfl
  rw [name_eq_fill, String.toList_ofList, Version.characters_of_isPlain hv]
  simp only [exactPatterns, List.mem_cons, List.not_mem_nil, or_false] at h
  rcases h with h | h | h | h
  · have hparts : rules.parts = [.placeholder .version] := by
      rw [parts, h]
      rfl
    rw [hparts, hversion, hcore]
  · have hparts : rules.parts = [.char 'v', .placeholder .version] := by
      rw [parts, h]
      rfl
    rw [hparts, hmark, hversion]
  · have hparts : rules.parts = [.placeholder .major, .char '.', .placeholder .minor, .char '.',
        .placeholder .patch] := by
      rw [parts, h]
      rfl
    rw [hparts, fill_numbers, hcore]
  · have hparts :
        rules.parts = [.char 'v', .placeholder .major, .char '.', .placeholder .minor, .char '.',
          .placeholder .patch] := by
      rw [parts, h]
      rfl
    rw [hparts, hmark, fill_numbers]

/-- These are the patterns that a configuration may have and that name every plain version so that
its name is read back as that version. -/
theorem parse_name_iff (rules : TagRules) :
    (rules.validate = .ok () ∧ ∀ v : Version, v.isPlain = true →
      Version.parse (rules.name v) = .ok v) ↔
      rules.pattern ∈ exactPatterns := by
  constructor
  · rintro ⟨-, hparse⟩
    have h := Version.dropMark_of_parse (by decide) (hparse trial rfl)
    have h' := Version.dropMark_of_parse (by decide) (hparse otherTrial rfl)
    rw [name_eq_fill, String.toList_ofList] at h h'
    rcases Version.eq_of_dropMark h with h | h
    · rcases Version.eq_of_dropMark h' with h' | h'
      · rcases parts_of_fill_trial h h' with hparts | hparts
        · rw [pattern_eq_of_parts hparts]
          decide
        · rw [pattern_eq_of_parts hparts]
          decide
      · obtain ⟨rest, hparts, -⟩ := eq_char_cons_of_fill (c := 'v') (by decide) h'
        rw [hparts] at h
        exact absurd (List.cons.inj h).1 (by decide)
    · obtain ⟨rest, hparts, hrest⟩ := eq_char_cons_of_fill (c := 'v') (by decide) h
      rw [hparts] at h'
      rcases Version.eq_of_dropMark h' with h' | h'
      · exact absurd (List.cons.inj h').1 (by decide)
      · rcases parts_of_fill_trial hrest (List.cons.inj h').2 with rfl | rfl
        · rw [pattern_eq_of_parts hparts]
          decide
        · rw [pattern_eq_of_parts hparts]
          decide
  · intro h
    refine ⟨?_, fun v hv => Version.parse_of_dropMark (dropMark_name h hv)⟩
    simp only [exactPatterns, List.mem_cons, List.not_mem_nil, or_false] at h
    rw [validate, if_pos]
    rcases h with h | h | h | h <;> rw [h] <;> decide

/-- A configuration may put a word in front of the version, but then no name is read back. -/
theorem parse_name_release :
    let rules : TagRules := { pattern := "release-\x7bversion\x7d" }
    let v : Version := { major := 0, minor := 1, patch := 0 }
    rules.validate = .ok () ∧ v.isPlain = true ∧ rules.name v = "release-0.1.0" ∧
      Version.parse (rules.name v) =
        .error (.malformed "release-0.1.0" (.unexpectedChar .major 'r')) :=
  ⟨rfl, rfl, rfl, rfl⟩

end TagRules

end ConventionalRelease
