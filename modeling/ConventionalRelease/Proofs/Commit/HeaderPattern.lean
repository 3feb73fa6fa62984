import ConventionalRelease.Proofs.Commit.Convention
import ConventionalRelease.Proofs.Commit.Header
import ConventionalRelease.Proofs.Regex.Ways

/-!
# The pattern of a header

A conventional header can be told by a pattern, too. The pattern matches a text exactly if the text
is a header written out, and its groups record the parts of that header (`Header.reads_parts`), so
it finds what is read (`Header.find?_eq_parse?`). There is one way at most to write a text as a
header (`Header.eq_of_lead_append_eq`). Where the header is not selected from the subject, a message
is made of these parts, or its description is the subject as it stands (`Convention.parse_header`).
-/

namespace ConventionalRelease

open Regex

namespace Header

/-- The pattern of a conventional header. -/
def pattern : String := "^([a-z]+)(\\(([^)]*)\\))?(!)?: (.*)$"

/-- The header that the pattern finds in a text: the scope and the mark may be missing. -/
def find? (s : List Char) : Option Header := do
  let p ← (Pattern.parse pattern.toList).toOption
  let found ← p.search s
  return {
    type := ← found.group? 1
    scope := (found.group? 3).getD []
    marked := (found.group? 4).isSome
    description := ← found.group? 5 }

/-- The expression of the type. -/
def typePart : Regex := .group 1 (.many true (.one (.bracket false (.range 'a' 'z'))))

/-- The expression of the scope in parentheses. -/
def scopePart : Regex :=
  optional true (.group 2 (Regex.sequence
    [literal '(', .group 3 (optional true (.many true (.one (.bracket true (.single ')'))))),
      literal ')']))

/-- The expression of the mark. -/
def markPart : Regex := optional true (.group 4 (literal '!'))

/-- The expressions of a header between the start and the end of the text. -/
def parts :
    List Regex := [typePart, scopePart, markPart, literal ':', literal ' ', .group 5 restOfLine]

theorem parse_pattern : (Pattern.parse pattern.toList).toOption =
    some ⟨Regex.sequence (.anchor .textStart :: (parts ++ [.anchor .textEnd])), []⟩ := by
  decide +kernel

/-- What the groups of the pattern record of a header, latest first. -/
def groups (h : Header) (parens : Bool) : List (Nat × List Char) :=
  (5, h.description) :: ((if h.marked then [(4, ['!'])] else []) ++
    ((if parens then [(2, '(' :: (h.scope ++ [')'])), (3, h.scope)] else []) ++ [(1, h.type)]))

/-! ## What the parts read -/

theorem reads_typePart : Reads typePart fun text recorded =>
    text ≠ [] ∧ (∀ c ∈ text, c.isLower = true) ∧ recorded = [(1, text)] := by
  have hlower : ∀ c : Char, CharSet.contains (.bracket false (.range 'a' 'z')) c = c.isLower := by
    intro c
    rw [CharSet.contains, CharSet.contains, Bool.bne_false]
    rfl
  refine ((reads_many_one _).group 1).congr fun text recorded => ?_
  simp only [hlower]
  constructor
  · rintro ⟨_, ⟨hne, hall, rfl⟩, rfl⟩
    exact ⟨hne, hall, rfl⟩
  · rintro ⟨hne, hall, rfl⟩
    exact ⟨[], ⟨hne, hall, rfl⟩, rfl⟩

/-- A group of characters that close no parenthesis, or of none. -/
theorem reads_scope :
    Reads (.group 3 (optional true (.many true (.one (.bracket true (.single ')'))))))
      fun text recorded => ')' ∉ text ∧ recorded = [(3, text)] := by
  have hclosing : ∀ c : Char, CharSet.contains (.bracket true (.single ')')) c = (')' != c) := by
    intro c
    rw [CharSet.contains, CharSet.contains_single, Bool.bne_true]
    rfl
  have hopen : ∀ text : List Char, (∀ c ∈ text, (')' != c) = true) ↔ ')' ∉ text := by
    intro text
    simp only [bne_iff_ne, ne_eq]
    exact ⟨fun h hmem => h _ hmem rfl, fun h c hc e => h (e ▸ hc)⟩
  refine ((reads_many_one _).optional.group 3).congr fun text recorded => ?_
  simp only [hclosing, hopen]
  constructor
  · rintro ⟨_, ⟨-, hscope, rfl⟩ | ⟨rfl, rfl⟩, rfl⟩
    · exact ⟨hscope, rfl⟩
    · exact ⟨List.not_mem_nil, rfl⟩
  · rintro ⟨hscope, rfl⟩
    cases text with
    | nil => exact ⟨[], .inr ⟨rfl, rfl⟩, rfl⟩
    | cons c text => exact ⟨[], .inl ⟨List.cons_ne_nil c text, hscope, rfl⟩, rfl⟩

theorem reads_scopePart : Reads scopePart fun text recorded =>
    ∃ parens : Bool, ∃ scope, ')' ∉ scope ∧ (parens = false → scope = []) ∧
      text = (if parens then '(' :: (scope ++ [')']) else []) ∧
      recorded = if parens then [(2, '(' :: (scope ++ [')'])), (3, scope)] else [] := by
  have hclosed := reads_scope.sequence_cons ((reads_literal ')').sequence_cons reads_nil)
  refine (((reads_literal '(').sequence_cons hclosed).group 2).optional.congr
    fun text recorded => ?_
  constructor
  · rintro (⟨_, ⟨_, _, _, _, ⟨rfl, rfl⟩,
      ⟨scope, _, _, _, ⟨hscope, rfl⟩, ⟨_, _, _, _, ⟨rfl, rfl⟩, ⟨rfl, rfl⟩, rfl, rfl⟩, rfl, rfl⟩,
      rfl, rfl⟩, rfl⟩ | ⟨rfl, rfl⟩)
    · exact ⟨true, scope, hscope, nofun, by simp, by simp⟩
    · exact ⟨false, [], List.not_mem_nil, fun _ => rfl, rfl, rfl⟩
  · rintro ⟨parens, scope, hscope, -, rfl, rfl⟩
    cases parens with
    | false => exact .inr ⟨rfl, rfl⟩
    | true =>
      have hclosing : ∃ first inner rest later, (first = [')'] ∧ inner = []) ∧
          (rest = [] ∧ later = []) ∧ [')'] = first ++ rest ∧
            ([] : List (Nat × List Char)) = later ++ inner :=
        ⟨[')'], [], [], [], ⟨rfl, rfl⟩, ⟨rfl, rfl⟩, rfl, rfl⟩
      exact .inl ⟨[(3, scope)], ⟨['('], [], scope ++ [')'], [(3, scope)], ⟨rfl, rfl⟩,
        ⟨scope, [(3, scope)], [')'], [], ⟨hscope, rfl⟩, hclosing, rfl, rfl⟩, rfl, rfl⟩, rfl⟩

theorem reads_markPart : Reads markPart fun text recorded => ∃ marked : Bool,
    text = (if marked then ['!'] else []) ∧ recorded = if marked then [(4, ['!'])] else [] := by
  refine ((reads_literal '!').group 4).optional.congr fun text recorded => ?_
  constructor
  · rintro (⟨_, ⟨rfl, rfl⟩, rfl⟩ | ⟨rfl, rfl⟩)
    · exact ⟨true, rfl, rfl⟩
    · exact ⟨false, rfl, rfl⟩
  · rintro ⟨marked, rfl, rfl⟩
    cases marked with
    | false => exact .inr ⟨rfl, rfl⟩
    | true => exact .inl ⟨[], ⟨rfl, rfl⟩, rfl⟩

theorem reads_descriptionPart :
    Reads (Regex.sequence [literal ':', literal ' ', .group 5 restOfLine]) fun text recorded =>
    ∃ description, '\n' ∉ description ∧ text = ':' :: ' ' :: description ∧
      recorded = [(5, description)] := by
  have hgroup := (reads_restOfLine.group 5).sequence_cons reads_nil
  refine ((reads_literal ':').sequence_cons ((reads_literal ' ').sequence_cons hgroup)).congr
    fun text recorded => ?_
  constructor
  · rintro ⟨_, _, _, _, ⟨rfl, rfl⟩,
      ⟨_, _, _, _, ⟨rfl, rfl⟩, ⟨description, _, _, _, ⟨_, ⟨hline, rfl⟩, rfl⟩, ⟨rfl, rfl⟩, rfl, rfl⟩,
        rfl, rfl⟩, rfl, rfl⟩
    exact ⟨description, hline, by simp, by simp⟩
  · rintro ⟨description, hline, rfl, rfl⟩
    have hread : ∃ first inner rest later,
        (∃ more, ('\n' ∉ first ∧ more = []) ∧ inner = (5, first) :: more) ∧
        (rest = [] ∧ later = []) ∧ description = first ++ rest ∧
          [(5, description)] = later ++ inner :=
      ⟨description, [(5, description)], [], [], ⟨[], ⟨hline, rfl⟩, rfl⟩, ⟨rfl, rfl⟩, by simp, rfl⟩
    exact ⟨[':'], [], ' ' :: description, [(5, description)], ⟨rfl, rfl⟩,
      ⟨[' '], [], description, [(5, description)], ⟨rfl, rfl⟩, hread, rfl, rfl⟩, rfl, rfl⟩

/-- The parts read the texts that are headers written out, and record the parts of the header. -/
theorem reads_parts : Reads (Regex.sequence parts) fun text recorded => ∃ h : Header, ∃ parens,
    h.IsProper parens ∧ text = h.lead parens ++ h.description ∧ recorded = h.groups parens := by
  have hmark := reads_markPart.sequence_cons reads_descriptionPart
  refine (reads_typePart.sequence_cons (reads_scopePart.sequence_cons hmark)).congr
    fun text recorded => ?_
  constructor
  · rintro ⟨type, _, _, _, ⟨hne, hlower, rfl⟩,
      ⟨_, _, _, _, ⟨parens, scope, hopen, hnil, rfl, rfl⟩, ⟨_, _, _, _, ⟨marked, rfl, rfl⟩,
        ⟨description, hline, rfl, rfl⟩, rfl, rfl⟩, rfl, rfl⟩, rfl, rfl⟩
    exact ⟨⟨type, scope, marked, description⟩, parens, ⟨hne, hlower, hopen, hnil, hline⟩, by
      simp [lead], by simp [groups]⟩
  · rintro ⟨⟨type, scope, marked, description⟩, parens, ⟨hne, hlower, hopen, hnil, hline⟩, rfl, rfl⟩
    exact ⟨type, [(1, type)], _, _, ⟨hne, hlower, rfl⟩,
      ⟨_, _, _, _, ⟨parens, scope, hopen, hnil, rfl, rfl⟩, ⟨_, _, _, _, ⟨marked, rfl, rfl⟩,
        ⟨description, hline, rfl, rfl⟩, rfl, rfl⟩, rfl, rfl⟩, by simp [lead],
      by simp [groups]⟩

/-! ## What the pattern finds -/

/-- The parts of a header are what the groups of the pattern recorded. -/
theorem ofGroups (h : Header) (parens : Bool) (hscope : parens = false → h.scope = []) :
    (h.groups parens).lookup 1 = some h.type ∧ ((h.groups parens).lookup 3).getD [] = h.scope ∧
      ((h.groups parens).lookup 4).isSome = h.marked ∧
        (h.groups parens).lookup 5 = some h.description := by
  obtain ⟨type, scope, marked, description⟩ := h
  cases parens with
  | true => cases marked <;> exact ⟨rfl, rfl, rfl, rfl⟩
  | false =>
    obtain rfl : scope = [] := hscope rfl
    cases marked <;> exact ⟨rfl, rfl, rfl, rfl⟩

/-- The pattern finds the header that is read. -/
theorem find?_eq_parse? (s : List Char) : find? s = parse? s := by
  have hsearch := search_whole reads_parts s
  unfold find?
  rw [parse_pattern]
  simp only [Option.bind_eq_bind, Option.bind_some, Pattern.search]
  cases hw : (Regex.sequence (.anchor .textStart :: (parts ++ [.anchor .textEnd]))).search s with
  | some w =>
    rw [hw] at hsearch
    obtain ⟨_, ⟨h, parens, hproper, hs, rfl⟩, rfl⟩ := hsearch
    obtain ⟨htype, hscope, hmarked, hdescription⟩ := h.ofGroups parens hproper.scope_eq_nil
    rw [parse?_eq_some_iff.2 ⟨parens, hproper, hs⟩]
    simp only [Option.bind_some, Progress.group?, htype, hscope, hmarked, hdescription,
      Option.pure_def]
  | none =>
    rw [hw] at hsearch
    cases hparse : parse? s with
    | none => rfl
    | some h =>
      obtain ⟨parens, hproper, hs⟩ := parse?_eq_some_iff.1 hparse
      exact absurd ⟨h, parens, hproper, hs, rfl⟩ (hsearch (h.groups parens))

/-- There is one way at most to write a text as a header: what is read gives the parts, and their
length tells whether there are parentheses. -/
theorem IsWritten.unique {h h' : Header} {parens parens' : Bool} {s : List Char}
    (hs : h.IsWritten parens s) (hs' : h'.IsWritten parens' s) : h = h' ∧ parens = parens' := by
  have hparse := parse?_eq_some_iff.2 ⟨parens, hs⟩
  have hparse' := parse?_eq_some_iff.2 ⟨parens', hs'⟩
  obtain rfl := Option.some.inj (hparse.symm.trans hparse')
  have hlength := congrArg List.length (hs.2.symm.trans hs'.2)
  refine ⟨rfl, ?_⟩
  cases parens <;> cases parens' <;> simp [lead] at hlength ⊢ <;> omega

end Header

namespace Convention

variable {c : Convention}

/-- Where the header is not selected from the subject, every message is taken apart. If its subject
is a header written out, that header is the only one, the pattern finds it, and the message has its
parts; the description is trimmed. Otherwise the pattern finds nothing, the description is the
subject as it stands, and only the body can say that something breaks. -/
theorem parse_header (h : c.selector = none) (subject body : String) :
    ∃ m, c.parse subject body = .ok m ∧
      (∀ header parens, Header.IsWritten header parens subject.toList →
        (∀ other parens', Header.IsWritten other parens' subject.toList → other = header ∧
          parens' = parens) ∧
          Header.find? subject.toList = some header ∧ m.type = String.ofList header.type ∧
          m.scope = String.ofList header.scope ∧
            m.description = String.ofList (Text.trim header.description) ∧
          m.breaking = (header.marked || (breakingIn? (bodyText body)).isSome)) ∧
      ((¬ ∃ header parens, Header.IsWritten header parens subject.toList) →
        Header.find? subject.toList = none ∧ m.type = "" ∧ m.scope = "" ∧ m.description = subject ∧
          m.breaking = (breakingIn? (bodyText body)).isSome) := by
  have hselected : c.header subject = .ok subject := by rw [Convention.header, h]
  obtain ⟨m, hm⟩ := exists_parse hselected body
  have hbreaking := breaking_of_parse hselected hm
  obtain ⟨_, hheader, htype, hscope, hdescription, -⟩ := of_parse hm
  cases hselected.symm.trans hheader
  rw [saysBreaking] at hbreaking
  refine ⟨m, hm, ?_, ?_⟩
  · intro header parens hwritten
    have hparse := Header.parse?_eq_some_iff.2 ⟨parens, hwritten⟩
    rw [ofHeader, hparse] at htype hscope hdescription hbreaking
    refine ⟨fun other parens' hother => hother.unique hwritten, ?_, htype, hscope,
      hdescription, hbreaking⟩
    rw [Header.find?_eq_parse?, hparse]
  · intro hnone
    have hparse : Header.parse? subject.toList = none :=
      Option.eq_none_iff_forall_ne_some.2 fun header hparse =>
      hnone ⟨header, Header.parse?_eq_some_iff.1 hparse⟩
    rw [ofHeader, hparse] at htype hscope hdescription hbreaking
    exact ⟨by rw [Header.find?_eq_parse?, hparse], htype, hscope, hdescription, hbreaking⟩

/-- A scope may hold line feeds, opening parentheses and colons. -/
theorem parse_header_openScope :
    ∃ c, ofConfig {} = .ok c ∧ c.selector = none ∧
      ∃ m, c.parse "feat(a(b: \n)!:  open" "" = .ok m ∧ m.type = "feat" ∧ m.scope = "a(b: \n" ∧
        m.description = "open" ∧ m.breaking = true := by
  have hvalid : Config.validate {} = .ok () := by decide +kernel
  obtain ⟨c, hc⟩ := exists_ofConfig hvalid
  have hselector : c.selector = none := (Except.ok.inj (ofConfig_spec hc).1).symm
  obtain ⟨m, hm, hwritten, -⟩ := parse_header hselector "feat(a(b: \n)!:  open" ""
  have hheader : Header.IsWritten ⟨"feat".toList, "a(b: \n".toList, true, " open".toList⟩ true
      "feat(a(b: \n)!:  open".toList :=
    ⟨⟨by simp, List.all_eq_true.1 rfl, by simp, nofun, by simp⟩, rfl⟩
  obtain ⟨-, -, htype, hscope, hdescription, hbreaking⟩ := hwritten _ _ hheader
  exact ⟨c, hc, hselector, m, hm, htype, hscope, hdescription, hbreaking⟩

end Convention

end ConventionalRelease
