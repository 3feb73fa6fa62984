import ConventionalRelease.Proofs.Commit.ReadBack
import ConventionalRelease.Proofs.Regex.Capture

/-!
# What the check of a message accepts

A message is accepted if it can be taken apart, and its type, scope and description are as they have
to be (`Convention.validate_eq_ok_iff`). The form that a header must have adds to this for one kind
of header only: empty parentheses must be closed once more.
-/

namespace ConventionalRelease

namespace Header

/-- Another closing parenthesis is followed by what may follow a scope: a mark or none, a colon and
a space, and a description. -/
def ClosesAgain (s : List Char) : Prop :=
  ∃ before, ∃ marked : Bool, ∃ c description,
    s = before ++ ')' :: ((if marked then ['!'] else []) ++ ':' :: ' ' :: c :: description)

/-! ## The form of a checked header -/

/-- On one line, the tail of a header is a mark or none, a colon and a space, and a description. -/
theorem isTail_iff {s : List Char} (h : '\n' ∉ s) :
    isTail s = true ↔ ∃ marked : Bool, ∃ c description,
      s = (if marked then ['!'] else []) ++ ':' :: ' ' :: c :: description := by
  constructor
  · intro htail
    unfold isTail at htail
    split at htail
    · next c description hrest =>
      exact ⟨(readMark s).1, c, description, readMark_eq (Prod.ext rfl hrest)⟩
    · cases htail
  · rintro ⟨marked, c, description, rfl⟩
    have hline : '\n' ∉ c :: description := fun hmem => h (List.mem_append_right _
      (List.mem_cons_of_mem ':' (List.mem_cons_of_mem ' ' hmem)))
    rw [isTail, readMark_append marked (by simp)]
    simpa using hline

/-- On one line, a scope is closed where a closing parenthesis is followed by the tail of a
header. -/
theorem closesScope_iff {s : List Char} (h : '\n' ∉ s) (started : Bool) :
    closesScope started s = true ↔ ∃ before after, s = before ++ ')' :: after ∧
      (started = true ∨ before ≠ []) ∧ isTail after = true := by
  induction s generalizing started with
  | nil => exact ⟨nofun, fun ⟨before, after, hs, _⟩ => by simp at hs⟩
  | cons d s ih =>
    rw [List.mem_cons, not_or] at h
    have hd : (d != '\n') = true := bne_iff_ne.2 (Ne.symm h.1)
    rw [closesScope, hd, Bool.true_and, Bool.or_eq_true, Bool.and_eq_true, Bool.and_eq_true,
      beq_iff_eq, ih h.2]
    constructor
    · rintro (⟨⟨hstarted, rfl⟩, htail⟩ | ⟨before, after, rfl, -, htail⟩)
      · exact ⟨[], s, rfl, .inl hstarted, htail⟩
      · exact ⟨d :: before, after, rfl, .inr (List.cons_ne_nil d before), htail⟩
    · rintro ⟨before, after, hs, hopen, htail⟩
      cases before with
      | nil =>
        obtain ⟨rfl, rfl⟩ := List.cons.inj hs
        exact .inl ⟨⟨hopen.resolve_right fun hne => hne rfl, rfl⟩, htail⟩
      | cons e before =>
        obtain ⟨rfl, rfl⟩ := List.cons.inj hs
        exact .inr ⟨before, after, rfl, .inl rfl, htail⟩

/-- Behind empty parentheses the scope of a checked header goes on to another closing
parenthesis. -/
theorem closesScope_cons_iff {s : List Char} (h : '\n' ∉ s) :
    closesScope false (')' :: s) = true ↔ ClosesAgain s := by
  have hskip : closesScope false (')' :: s) = closesScope true s := rfl
  rw [hskip, closesScope_iff h]
  constructor
  · rintro ⟨before, after, rfl, -, htail⟩
    rw [List.mem_append, List.mem_cons, not_or, not_or] at h
    obtain ⟨marked, c, description, rfl⟩ := (isTail_iff h.2.2).1 htail
    exact ⟨before, marked, c, description, rfl⟩
  · rintro ⟨before, marked, c, description, rfl⟩
    rw [List.mem_append, List.mem_cons, not_or, not_or] at h
    exact ⟨before, _, rfl, .inl rfl, (isTail_iff h.2.2).2 ⟨marked, c, description, rfl⟩⟩

section
variable {type : List Char} (hne : type ≠ []) (hlower : ∀ c ∈ type, c.isLower = true)
include hne hlower

/-- What stands behind a type is what the form of a checked header is about. -/
theorem dropWhile_type_append {rest : List Char}
    (hrest : Text.stops (fun c => c.isLower || c == '+') rest = true) :
    (type ++ rest).dropWhile (fun c => c.isLower || c == '+') = rest ∧
      rest.length < (type ++ rest).length := by
  refine ⟨Text.dropWhile_append_of_stops (fun c hc => by rw [hlower c hc, Bool.true_or]) hrest, ?_⟩
  rw [List.length_append]
  exact Nat.lt_add_of_pos_left (List.length_pos_iff.2 hne)

/-- A type with the tail of a header is of the form. -/
theorem isPlausible_tail {rest : List Char}
    (hrest : Text.stops (fun c => c.isLower || c == '+') rest = true) (htail : isTail rest = true) :
    isPlausible (type ++ rest) = true := by
  obtain ⟨hdrop, hlength⟩ := dropWhile_type_append hne hlower hrest
  rw [isPlausible, hdrop, decide_eq_true hlength, htail]
  rfl

/-- A type with a parenthesis is of the form if a scope is closed behind it. -/
theorem isPlausible_scope (inside : List Char) :
    isPlausible (type ++ '(' :: inside) = closesScope false inside := by
  obtain ⟨hdrop, hlength⟩ := dropWhile_type_append hne hlower
    (rfl : Text.stops _ ('(' :: inside) = true)
  rw [isPlausible, hdrop, decide_eq_true hlength, Bool.true_and]
  rfl

end

/-- A conventional header with a description is of the form that a checked header must have, unless
its parentheses are empty and not closed once more. -/
theorem isPlausible_iff_of_parse? {s : List Char} {h : Header} (hparse : parse? s = some h)
    (hline : '\n' ∉ s) (hdescription : h.description ≠ []) :
    isPlausible s = true ↔ ∀ rest, s = h.type ++ '(' :: ')' :: rest → ClosesAgain rest := by
  obtain ⟨parens, hproper, rfl⟩ := parse?_eq_some_iff.1 hparse
  obtain ⟨c, description, hcons⟩ := List.exists_cons_of_ne_nil hdescription
  generalize htail : (if h.marked then ['!'] else []) ++ ':' :: ' ' :: h.description = tail
  have hstops : Text.stops (fun c => c.isLower || c == '+') tail = true := by
    rw [← htail]
    cases h.marked <;> rfl
  have hshape : h.lead parens ++ h.description =
      h.type ++ ((if parens then '(' :: (h.scope ++ [')']) else []) ++ tail) := by
    rw [← htail]
    simp [lead]
  rw [hshape] at hline ⊢
  have htail : isTail tail = true := by
    rw [isTail_iff fun hmem => hline (List.mem_append_right _ (List.mem_append_right _ hmem)),
      ← htail, hcons]
    exact ⟨h.marked, c, description, rfl⟩
  cases parens with
  | false =>
    refine iff_of_true (isPlausible_tail hproper.type_ne_nil hproper.type_lower hstops htail)
      fun rest hrest => ?_
    have hbegin : tail = '(' :: ')' :: rest := List.append_cancel_left hrest
    rw [hbegin] at htail
    cases htail
  | true =>
    rw [if_pos rfl, List.cons_append, List.append_assoc, List.singleton_append] at hline ⊢
    rw [isPlausible_scope hproper.type_ne_nil hproper.type_lower]
    rw [List.mem_append, List.mem_cons, not_or, not_or] at hline
    cases hscope : h.scope with
    | nil =>
      rw [hscope, List.nil_append, List.mem_cons, not_or] at hline
      rw [List.nil_append, closesScope_cons_iff hline.2.2.2]
      constructor
      · intro hcloses rest hrest
        cases List.append_cancel_left hrest
        exact hcloses
      · exact fun hcloses => hcloses tail rfl
    | cons d scope =>
      rw [hscope] at hline
      refine iff_of_true ((closesScope_iff hline.2.2 false).2
        ⟨d :: scope, tail, rfl, .inr (List.cons_ne_nil d scope), htail⟩) fun rest hrest => ?_
      have hopen := hproper.scope_open
      rw [hscope] at hopen
      obtain ⟨rfl, -⟩ := List.cons.inj (List.cons.inj (List.append_cancel_left hrest)).2
      exact absurd List.mem_cons_self hopen

end Header

namespace Convention

variable {c : Convention}

/-! ## The parts of a checked message -/

/-- A type is accepted if it is one of those allowed. -/
theorem validateType_eq_ok {type : String} :
    c.validateType type = .ok () ↔ type ≠ "" ∧ type ∈ c.types := by
  rw [validateType]
  by_cases hne : type = "" <;> by_cases hmem : type ∈ c.types <;> simp [hne, hmem]

/-- A scope is accepted if it is one of those allowed, or all are. -/
theorem validateScope_eq_ok {scope : String} :
    c.validateScope scope = .ok () ↔ c.scopes = [] ∨ scope ∈ c.scopes := by
  rw [validateScope]
  by_cases hnil : c.scopes = [] <;> by_cases hmem : scope ∈ c.scopes <;> simp [hnil, hmem]

/-- The header of a subject consists of characters of the subject. -/
theorem mem_of_header {subject header : String} (h : c.header subject = .ok header) {d : Char}
    (hd : d ∈ header.toList) : d ∈ subject.toList := by
  unfold Convention.header at h
  split at h
  · cases h
    exact hd
  · next pattern _ =>
    dsimp only at h
    split at h
    · next found hfound =>
      cases h
      obtain ⟨index, -, hsearch⟩ := Option.bind_eq_some_iff.1 hfound
      obtain ⟨w, hw, hgroup⟩ := Option.bind_eq_some_iff.1 hsearch
      rw [String.toList_ofList] at hd
      exact pattern.mem_of_group?_search hw hgroup hd
    · cases h

/-- A message is accepted if its parts are. -/
theorem validate_of_parts {message header : String} {m : CommitMessage}
    (hm : c.parse (splitMessage message).1 (splitMessage message).2 = .ok m)
    (hheader : c.header (splitMessage message).1 = .ok header)
    (hform : Header.isPlausible header.toList = true) (htype : c.validateType m.type = .ok ())
    (hscope : c.validateScope m.scope = .ok ()) (hlower : startsLower m.description.toList = true) :
    c.validate message = .ok () := by
  refine bind_eq_ok.2 ⟨m, hm, bind_eq_ok.2 ⟨header, hheader, ?_⟩⟩
  rw [hform]
  refine bind_eq_ok.2 ⟨(), htype, bind_eq_ok.2 ⟨(), hscope, ?_⟩⟩
  rw [hlower]
  rfl

/-- A message is accepted exactly if it is taken apart into an allowed type, an allowed scope and a
description that starts with a small letter, and empty parentheses in its header are closed once
more. -/
theorem validate_eq_ok_iff (c : Convention) (message : String) :
    c.validate message = .ok () ↔ ∃ m header,
      c.parse (splitMessage message).1 (splitMessage message).2 = .ok m ∧
      c.header (splitMessage message).1 = .ok header ∧
      m.type ≠ "" ∧ m.type ∈ c.types ∧ (c.scopes = [] ∨ m.scope ∈ c.scopes) ∧
      startsLower m.description.toList = true ∧
      ∀ rest, header.toList = m.type.toList ++ '(' :: ')' :: rest → Header.ClosesAgain rest := by
  have hform : ∀ {m header}, c.parse (splitMessage message).1 (splitMessage message).2 = .ok m →
      c.header (splitMessage message).1 = .ok header → m.type ≠ "" →
        startsLower m.description.toList = true →
      (Header.isPlausible header.toList = true ↔
        ∀ rest, header.toList = m.type.toList ++ '(' :: ')' :: rest → Header.ClosesAgain rest) := by
    intro m header hm hheader hne hlower
    obtain ⟨_, hfirst, htype, -, hdescription, -⟩ := of_parse hm
    cases hheader.symm.trans hfirst
    have hline : '\n' ∉ header.toList :=
      fun hmem => (splitMessage_fst message).2 (mem_of_header hheader hmem)
    obtain ⟨h, hparse⟩ := parse?_of_type_ne (htype ▸ hne)
    obtain ⟨htype', -, hdescription', -⟩ := ofHeader_of_parse? hparse
    rw [hdescription, hdescription', String.toList_ofList] at hlower
    obtain ⟨d, rest, hd, -⟩ := exists_of_startsLower hlower
    have hdescribed : h.description ≠ [] := by
      rw [hd]
      exact List.append_ne_nil_of_right_ne_nil _ (List.cons_ne_nil d rest)
    rw [htype, htype', String.toList_ofList]
    exact Header.isPlausible_iff_of_parse? hparse hline hdescribed
  constructor
  · intro hvalid
    obtain ⟨m, header, hm, hheader, hplausible, htype, hscope, hlower⟩ := of_validate hvalid
    obtain ⟨hne, hallowed⟩ := validateType_eq_ok.1 htype
    exact ⟨m, header, hm, hheader, hne, hallowed, validateScope_eq_ok.1 hscope, hlower,
      (hform hm hheader hne hlower).1 hplausible⟩
  · rintro ⟨m, header, hm, hheader, hne, hallowed, hscope, hlower, hcloses⟩
    exact validate_of_parts hm hheader ((hform hm hheader hne hlower).2 hcloses)
      (validateType_eq_ok.2 ⟨hne, hallowed⟩) (validateScope_eq_ok.2 hscope) hlower

/-- Empty parentheses are refused although what is taken apart is as it has to be. -/
theorem validate_emptyScope :
    ∃ c m, ofConfig {} = .ok c ∧
      c.parse (splitMessage "feat(): add x").1 (splitMessage "feat(): add x").2 = .ok m ∧
      m.type ≠ "" ∧ m.type ∈ c.types ∧ (c.scopes = [] ∨ m.scope ∈ c.scopes) ∧
      startsLower m.description.toList = true ∧
      c.validate "feat(): add x" = .error (.invalidSubject "feat(): add x") := by
  obtain ⟨c, hc, htried⟩ := exists_of_any (x := ofConfig {})
    (p := fun c => c.validate "feat(): add x" == .error (.invalidSubject "feat(): add x") &&
      c.scopes == [] &&
      (c.parse (splitMessage "feat(): add x").1 (splitMessage "feat(): add x").2).toOption.any
        fun m => m.type ≠ "" && m.type ∈ c.types && startsLower m.description.toList)
    (by decide +kernel)
  obtain ⟨hchecks, hparsed⟩ := Bool.and_eq_true_iff.1 htried
  obtain ⟨hrefused, hscopes⟩ := Bool.and_eq_true_iff.1 hchecks
  obtain ⟨m, hm, hparts⟩ := exists_of_any hparsed
  obtain ⟨htype, hlower⟩ := Bool.and_eq_true_iff.1 hparts
  obtain ⟨hne, hallowed⟩ := Bool.and_eq_true_iff.1 htype
  exact ⟨c, m, hc, hm, of_decide_eq_true hne, of_decide_eq_true hallowed,
    .inl (eq_of_beq hscopes), hlower, eq_of_beq hrefused⟩

end Convention

end ConventionalRelease
