import ConventionalRelease.Proofs.Regex.Fragments
import ConventionalRelease.Proofs.Regex.Spans
import ConventionalRelease.Proofs.Regex.Ways

/-!
# A group between two fragments

A pattern may look for a whole text with a group in it, between a fragment in front of the group and
one behind it. If the fragments can be read by themselves and have no alternatives outside of their
groups, it finds the texts that are made of a piece for each of them (`Fragment.Enclose.search`),
and the group holds the piece in the middle: its number is the one behind the groups of the fragment
in front of it.
-/

namespace ConventionalRelease.Regex.Fragment

/-- The fragments of three texts, the second of which is put into a group between the others. The
first and the third have no alternatives outside of their groups, so that what is put around them
stays around them, and the end of a line does not count as the end of the text behind the third. -/
@[mk_iff]
structure Enclose (f i b : Fragment) (front inner back : List Char) : Prop where
  readFront : read {} front = .ok f
  readInner : read f.flags inner = .ok i
  readBack : read f.flags back = .ok b
  sequenceFront : f.IsSequence
  sequenceBack : b.IsSequence
  singleLine : b.flags.multiLine = false

variable {f i b : Fragment} {front inner back : List Char} {p : Pattern}

instance : Decidable (Enclose f i b front inner back) :=
  decidable_of_iff' _ (enclose_iff f i b front inner back)

namespace Enclose

/-- The pattern that looks for the whole text. -/
def pattern (front inner back : List Char) : List Char :=
  '^' :: (front ++ '(' :: (inner ++ ')' :: (back ++ ['$'])))

/-- Its tokens are those of the texts and what is put around them. -/
theorem exists_tokens (h : Enclose f i b front inner back) : ∃ fronts inners backs,
    ofTokens {} fronts = .ok f ∧ ofTokens f.flags inners = .ok i ∧ ofTokens f.flags backs = .ok b ∧
      Token.ofText (pattern front inner back) =
        .ok (.start ::
          (fronts ++ .opening (.capture none) :: (inners ++ .closing :: (backs ++ [.stop])))) := by
  obtain ⟨fronts, hfronts, hf⟩ := bind_eq_ok.1 h.readFront
  obtain ⟨inners, hinners, hi⟩ := bind_eq_ok.1 h.readInner
  obtain ⟨backs, hbacks, hb⟩ := bind_eq_ok.1 h.readBack
  refine ⟨fronts, inners, backs, hf, hi, hb, ?_⟩
  have hopening : (inner ++ ')' :: (back ++ ['$'])).head? ≠ some '?' := by
    cases inner with
    | nil => simp
    | cons c inner =>
      have hne := head?_ne h.readInner
      exact hne
  refine Token.ofTextFrom_read [] rfl (Token.ofText_append hfronts (by simp) ?_)
  refine Token.ofTextFrom_read [] (readOpening_plain hopening)
    (Token.ofText_append hinners (by simp) ?_)
  refine Token.ofTextFrom_read [] rfl (Token.ofText_append hbacks (by simp) rfl)

/-- The pattern is the fragments one after the other, between the start and the end of the text. -/
theorem regex_eq (h : Enclose f i b front inner back)
    (hp : Pattern.parse (pattern front inner back) = .ok p) :
    p.regex = sequence (.anchor .textStart :: (f.parts.map (renumber 0) ++
      .group (f.groups + 1) (i.regex.renumber (f.groups + 1)) ::
        (b.parts.map (renumber (f.groups + 1 + i.groups)) ++ [.anchor .textEnd]))) := by
  obtain ⟨fronts, inners, backs, hf, hi, hb, htokens⟩ := h.exists_tokens
  obtain ⟨tokens, hread, hp⟩ := bind_eq_ok.1 hp
  obtain rfl := Except.ok.inj (htokens.symm.trans hread)
  obtain ⟨whole, hrun, hp⟩ := bind_eq_ok.1 hp
  have hregex : p.regex = whole.level.regex := by
    split at hp <;> cases hp
    rfl
  rw [hregex]
  obtain ⟨start, hstart, hrun⟩ := bind_eq_ok.1 hrun
  cases hstart
  rw [Builder.run_append] at hrun
  obtain ⟨c, hfront, hrun⟩ := bind_eq_ok.1 hrun
  obtain ⟨hbranches, hitems, hflags, hcount⟩ := parts_of_run hf h.sequenceFront rfl rfl hfront
  obtain ⟨d, hlevel, hcount', hrun⟩ := group_of_run (hflags ▸ hi) hrun
  rw [Builder.run_append] at hrun
  obtain ⟨e, hback, hrun⟩ := bind_eq_ok.1 hrun
  have hflags' : d.level.flags = f.flags := hlevel ▸ hflags
  have hbranches' : d.level.branches = [] := hlevel ▸ hbranches
  obtain ⟨hbranches'', hitems'', hflags'', -⟩ :=
    parts_of_run hb h.sequenceBack hflags' hbranches' hback
  obtain ⟨stop, hstop, hrun⟩ := bind_eq_ok.1 hrun
  cases hstop
  cases hrun
  have hcount : c.count = f.groups := hcount.trans (Nat.zero_add _)
  have hstop : (if e.level.flags.multiLine = true then Anchor.lineEnd else Anchor.textEnd) =
      .textEnd := by
    rw [hflags'', h.singleLine]
    rfl
  have hend : (e.push (.anchor .textEnd)).level.branches = [] := hbranches''
  have hitems : c.level.items = f.level.items.map (renumber 0) ++ [.anchor .textStart] := hitems
  have hparts : (e.push (.anchor .textEnd)).level.items =
      .anchor .textEnd :: (b.level.items.map (renumber (f.groups + 1 + i.groups)) ++
        .group (f.groups + 1) (i.regex.renumber (f.groups + 1)) ::
          (f.level.items.map (renumber 0) ++ [.anchor .textStart])) := by
    change Regex.anchor .textEnd :: e.level.items = _
    rw [hitems'', hlevel, hcount', hcount, ← hitems]
    rfl
  rw [hstop, Level.regex_eq hend, hparts]
  simp [parts]

end Enclose

/-- Whether a text is made of a piece for each of the fragments. -/
structure Covers (f i b : Fragment) (front inner back : List Char) : Prop where
  spansFront : f.regex.Spans [] front (inner ++ back)
  spansInner : i.regex.Spans front inner back
  spansBack : b.regex.Spans (front ++ inner) back []

/-- Under later numbers, nothing is recorded under the numbers before. -/
theorem lookup_laterGroups {k n : Nat} (hpos : 0 < n) (hle : n ≤ k)
    (groups others : List (Nat × List Char)) :
    (laterGroups k groups ++ others).lookup n = others.lookup n := by
  induction groups with
  | nil => rfl
  | cons g groups ih =>
    have hne : (n == laterIndex k g.1) = false := by
      have := laterIndex_eq_zero_or_lt k g.1
      rw [beq_eq_false_iff_ne]
      omega
    rw [laterGroups, List.map_cons, List.cons_append, List.lookup_cons, hne]
    exact ih

/-- Up to the end of the text, a fragment behind other groups matches what is left. -/
theorem mem_ways_back {k : Nat} (hsequence : b.IsSequence) {before after : List Char}
    {groups : List (Nat × List Char)} {w : Progress} :
    w ∈ (sequence (b.parts.map (renumber k) ++ [.anchor .textEnd])).ways ⟨before.reverse,
      after, groups⟩ ↔
      ∃ recorded, b.regex.Records before after [] recorded ∧
        w = ⟨(before ++ after).reverse, [], laterGroups k recorded ++ groups⟩ := by
  rw [ways_sequence_append, List.mem_flatMap, ← renumber_sequence, ← hsequence.regex_eq]
  constructor
  · rintro ⟨v, hv, hw⟩
    obtain ⟨text, rest, recorded, rfl, hrecords, rfl⟩ := mem_ways_renumber.1 hv
    cases rest with
    | nil =>
      rw [sequence, ways, Anchor.holds] at hw
      obtain rfl : w = _ := by simpa using hw
      exact ⟨recorded, by simpa using hrecords, by simp⟩
    | cons c rest => simp [sequence, ways, Anchor.holds] at hw
  · rintro ⟨recorded, hrecords, rfl⟩
    refine ⟨_, mem_ways_renumber.2 ⟨after, [], recorded, by simp, hrecords, rfl⟩, ?_⟩
    simp [sequence, ways, Anchor.holds]

/-- A group around a fragment matches the pieces of the text that the fragment matches, and records
the piece itself behind what the fragment records. -/
theorem mem_ways_group {k n : Nat} {before after : List Char}
    {groups : List (Nat × List Char)} {r : Regex} {w : Progress} :
    w ∈ (Regex.group n (r.renumber k)).ways ⟨before.reverse, after, groups⟩ ↔
      ∃ text rest recorded, after = text ++ rest ∧ r.Records before text rest recorded ∧
        w = ⟨(before ++ text).reverse, rest, (n, text) :: (laterGroups k recorded ++ groups)⟩ := by
  rw [ways, List.mem_map]
  constructor
  · rintro ⟨v, hv, rfl⟩
    obtain ⟨text, rest, recorded, rfl, hrecords, rfl⟩ := mem_ways_renumber.1 hv
    exact ⟨text, rest, recorded, rfl, hrecords, record_append _ _ _ _ _ _ rfl⟩
  · rintro ⟨text, rest, recorded, rfl, hrecords, rfl⟩
    exact ⟨_, mem_ways_renumber.2 ⟨text, rest, recorded, rfl, hrecords, rfl⟩,
      record_append _ _ _ _ _ _ rfl⟩

namespace Enclose

/-- The ways to match are the pieces of the text for the fragments. -/
theorem mem_ways (h : Enclose f i b front inner back) {text : List Char} {w : Progress} :
    w ∈
      (sequence
        (f.parts.map (renumber 0) ++ .group (f.groups + 1) (i.regex.renumber (f.groups + 1)) ::
        (b.parts.map (renumber (f.groups + 1 + i.groups)) ++ [.anchor .textEnd]))).ways
          ⟨[], text, []⟩ ↔
      ∃ p q r fs is bs, text = p ++ (q ++ r) ∧ f.regex.Records [] p (q ++ r) fs ∧
        i.regex.Records p q r is ∧
        b.regex.Records (p ++ q) r [] bs ∧
        w = ⟨text.reverse, [], laterGroups (f.groups + 1 + i.groups) bs ++
          (f.groups + 1, q) :: (laterGroups (f.groups + 1) is ++ laterGroups 0 fs)⟩ := by
  have hplace : (⟨[], text, []⟩ : Progress) = ⟨([] : List Char).reverse, text, []⟩ := rfl
  rw [ways_sequence_append, List.mem_flatMap, ← renumber_sequence,
    ← h.sequenceFront.regex_eq, hplace]
  constructor
  · rintro ⟨v, hv, hw⟩
    obtain ⟨p, rest, fs, rfl, hf, rfl⟩ := mem_ways_renumber.1 hv
    rw [ways_sequence_cons, List.mem_flatMap] at hw
    obtain ⟨u, hu, hw⟩ := hw
    obtain ⟨q, r, is, rfl, hi, rfl⟩ := mem_ways_group.1 hu
    obtain ⟨bs, hb, rfl⟩ := (mem_ways_back h.sequenceBack).1 hw
    exact ⟨p, q, r, fs, is, bs, rfl, hf, hi, hb, by simp⟩
  · rintro ⟨p, q, r, fs, is, bs, rfl, hf, hi, hb, rfl⟩
    refine ⟨_, mem_ways_renumber.2 ⟨p, q ++ r, fs, rfl, hf, rfl⟩, ?_⟩
    rw [ways_sequence_cons, List.mem_flatMap]
    refine ⟨_, mem_ways_group.2 ⟨q, r, is, rfl, hi, rfl⟩, ?_⟩
    exact (mem_ways_back h.sequenceBack).2 ⟨bs, hb, by simp⟩

/-- The pattern finds a whole text that is made of a piece for each fragment, with the piece in the
middle in its group, or nothing if there are no such pieces. -/
theorem search (h : Enclose f i b front inner back)
    (hp : Pattern.parse (pattern front inner back) = .ok p) (text : List Char) :
    match p.search text with
    | some w => w.before = text.reverse ∧ w.after = [] ∧
        ∃ p q r, text = p ++ q ++ r ∧ Covers f i b p q r ∧ w.group? (f.groups + 1) = some q
    | none => ∀ p q r, text = p ++ q ++ r → ¬ Covers f i b p q r := by
  rw [Pattern.search, h.regex_eq hp, search_textStart]
  split
  · next w hw =>
    obtain ⟨p, q, r, fs, is, bs, rfl, hf, hi, hb, rfl⟩ := h.mem_ways.1 (List.mem_of_head? hw)
    refine ⟨rfl, rfl, p, q, r, by simp, ⟨⟨fs, hf⟩, ⟨is, hi⟩, ⟨bs, hb⟩⟩, ?_⟩
    rw [Progress.group?, lookup_laterGroups (Nat.succ_pos _) (Nat.le_add_right _ _),
      List.lookup_cons, beq_self_eq_true]
  · next hnone =>
    rintro p q r rfl ⟨⟨fs, hf⟩, ⟨is, hi⟩, ⟨bs, hb⟩⟩
    have hmem := h.mem_ways.2 ⟨p, q, r, fs, is, bs, List.append_assoc p q r, hf, hi, hb, rfl⟩
    rw [List.head?_eq_none_iff.1 hnone] at hmem
    exact List.not_mem_nil hmem

end Enclose

end ConventionalRelease.Regex.Fragment
