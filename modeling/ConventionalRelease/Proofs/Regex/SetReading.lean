import ConventionalRelease.Proofs.Regex.SetItems

/-!
# Sets and the text behind them

A set in brackets is read in the same way with more text behind it, and whatever number of steps is
left once it can be read (`settles_sets`). Sets and their items are read by two readers that call
each other; `Settled` is what they keep of each other's readings. That something is left of the text
when a set or an item in brackets was read, the closed bracket at least, is what tells items from
operators, and sets from classes with names, in the same way with more text behind them.
-/

namespace ConventionalRelease.Regex

variable {rest more : List Char} {token : Token} {used : Nat}

/-! ## Items in brackets -/

/-- Whether a text in brackets starts with an item, and not with an operator, a set or the closed
bracket. -/
def startsItem : List Char → Bool
  | [] | ']' :: _ | '&' :: '&' :: _ | '-' :: '-' :: _ | '~' :: '~' :: _ | '[' :: _ => false
  | _ => true

/-- What starts with an item is that item and then the others. -/
theorem readSetItems_item {n : Nat} {pending : Option (CharSet × SetOperator)}
    {items : List CharSet} (h : startsItem rest = true) :
    readSetItems (n + 1) pending items rest = do
      let (first, used) ← readSetItem rest
      let (item, used) ← rangeFrom first used (rest.drop used)
      let (t, used') ← readSetItems n pending (item :: items) (rest.drop used)
      return (t, used + used') := by
  conv => lhs; unfold readSetItems
  dsimp only
  split
  all_goals first | cases h | skip
  refine bind_congr fun ⟨first, used⟩ => ?_
  dsimp only
  unfold rangeFrom
  by_cases hrange : continuesRange (rest.drop used) = true
  · rw [if_pos hrange, bind_assoc]
    refine (if_pos hrange).trans (bind_congr fun ⟨last, used'⟩ => ?_)
    cases first <;> cases last <;> try rfl
    next lo hi =>
      dsimp only
      split <;> rfl
  · rw [if_neg hrange]
    refine (if_neg hrange).trans ?_
    cases first <;> rfl

/-- What starts with an item does so with more behind it, if it has a second character. -/
theorem startsItem_append {c d : Char} (tail more : List Char) :
    startsItem (c :: d :: tail ++ more) = startsItem (c :: d :: tail) := by
  rw [List.cons_append, List.cons_append]
  unfold startsItem
  split <;> split <;> simp_all

/-- What a reader of sets reads in some number of steps does not go past a bracket of the text, and
it reads the same with more text behind it and more steps. -/
structure Settled (reader : Nat → List Char → Except Error (CharSet × Nat)) (n : Nat)
    (rest : List Char) (found : CharSet × Nat) : Prop where
  used : found.2 ≤ rest.length
  bracket : ']' ∈ rest
  append : ∀ m, n ≤ m → ∀ more, reader m (rest ++ more) = .ok found

/-- Whether all that the reader reads in the number of steps is settled. -/
def Settles (reader : Nat → List Char → Except Error (CharSet × Nat)) (n : Nat) : Prop :=
  ∀ rest found, reader n rest = .ok found → Settled reader n rest found

section
variable {n : Nat} {reader : Nat → List Char → Except Error (CharSet × Nat)} {found : CharSet × Nat}
  {pending : Option (CharSet × SetOperator)} {items : List CharSet}

theorem Settled.of_succ (hused : found.2 ≤ rest.length) (hbracket : ']' ∈ rest)
    (happend : ∀ m, n ≤ m → ∀ more, reader (m + 1) (rest ++ more) = .ok found) :
    Settled reader (n + 1) rest found := by
  refine ⟨hused, hbracket, fun m hm more => ?_⟩
  obtain ⟨m, rfl⟩ := Nat.exists_eq_add_one.2 (Nat.zero_lt_of_lt hm)
  exact happend m (Nat.le_of_succ_le_succ hm) more

/-- An item and the items behind it are settled if these are. -/
theorem settled_item (hitems : ∀ items, Settles (readSetItems · pending items) n)
    (hitem : startsItem rest = true) (h : readSetItems (n + 1) pending items rest = .ok found) :
    Settled (readSetItems · pending items) (n + 1) rest found := by
  rw [readSetItems_item hitem] at h
  obtain ⟨⟨first, k⟩, hfirst, h⟩ := bind_eq_ok.1 h
  obtain ⟨⟨item, k'⟩, hrange, h⟩ := bind_eq_ok.1 h
  obtain ⟨⟨t, k''⟩, hothers, h⟩ := bind_eq_ok.1 h
  obtain rfl := Except.ok.inj h
  obtain ⟨hused, hbracket, happend⟩ := hitems _ _ _ hothers
  have hpos : 0 < k := (readSetItem_append hfirst []).1
  have hk : k ≤ rest.length := (readSetItem_append hfirst []).2.1
  -- something is left behind the first character, or else nothing would be left behind the item
  have hbehind : rest.drop k ≠ [] := by
    intro hnil
    rw [hnil] at hrange
    have hsame : k' = k := by
      cases first <;> cases hrange <;> rfl
    rw [hsame, hnil] at hbracket
    cases hbracket
  have hk' : k' ≤ rest.length := by
    have := (rangeFrom_append hrange hbehind []).2.1
    rw [List.length_drop] at this
    omega
  have hstarts : ∀ more, startsItem (rest ++ more) = true := by
    intro more
    match rest, hbehind with
    | [], h => exact absurd List.drop_nil h
    | [c], h => exact absurd (List.drop_eq_nil_of_le hpos) h
    | c :: d :: tail, _ => rw [startsItem_append, hitem]
  refine .of_succ ?_ (List.mem_of_mem_drop hbracket) fun m hm more => ?_
  · rw [List.length_drop] at hused
    dsimp only at hused ⊢
    omega
  · have hrange := (rangeFrom_append hrange hbehind more).2.2
    have happend := happend m hm more
    rw [← List.drop_append_of_le_length hk] at hrange
    rw [← List.drop_append_of_le_length hk'] at happend
    rw [readSetItems_item (hstarts more)]
    refine bind_eq_ok.2 ⟨_, (readSetItem_append hfirst more).2.2, ?_⟩
    exact bind_eq_ok.2 ⟨_, hrange, bind_eq_ok.2 ⟨_, happend, rfl⟩⟩

/-- What is behind an operator is settled if its items are. -/
theorem settled_operand (hitems : ∀ pending items, Settles (readSetItems · pending items) n)
    (op : SetOperator) {behind : List Char}
    (h :
      (do
        let (s, used) ← readSetItems n (some (joinOperand pending items, op)) [] behind; return (s,
          used + 2)) =
      Except.ok found) :
    found.2 ≤ behind.length + 2 ∧ ']' ∈ behind ∧ ∀ m, n ≤ m → ∀ more,
      (do
        let (s, used) ← readSetItems m (some (joinOperand pending items, op)) [] (behind ++ more)
        return (s, used + 2)) = Except.ok found := by
  obtain ⟨⟨t, k⟩, hread, h⟩ := bind_eq_ok.1 h
  obtain rfl := Except.ok.inj h
  obtain ⟨hused, hbracket, happend⟩ := hitems _ _ _ _ hread
  exact ⟨Nat.add_le_add_right hused 2, hbracket, fun m hm more =>
    bind_eq_ok.2 ⟨_, happend m hm more, rfl⟩⟩

/-- A set among the items and the items behind it. -/
theorem readSetItems_bracket (pending : Option (CharSet × SetOperator)) (items : List CharSet)
    (behind : List Char) :
    readSetItems (n + 1) pending items ('[' :: behind) = do
      let (s, used) ← (readNamedSet behind).elim (readSet n behind) pure
      let (t, used') ← readSetItems n pending (s :: items) (behind.drop used)
      return (t, 1 + used + used') := by
  rw [readSetItems]
  cases readNamedSet behind <;> rfl

/-- A set among the items is settled if it is one of the sets read so far, and so are the items
behind it. -/
theorem settled_bracket (hset : Settles readSet n)
    (hitems : ∀ items, Settles (readSetItems · pending items) n) {behind : List Char}
    (h : readSetItems (n + 1) pending items ('[' :: behind) = .ok found) :
    Settled (readSetItems · pending items) (n + 1) ('[' :: behind) found := by
  rw [readSetItems_bracket] at h
  obtain ⟨⟨s, k⟩, hinner, h⟩ := bind_eq_ok.1 h
  obtain ⟨⟨t, k'⟩, hothers, h⟩ := bind_eq_ok.1 h
  obtain rfl := Except.ok.inj h
  obtain ⟨hused, hbracket, happend⟩ := hitems _ _ _ hothers
  obtain ⟨hk, hinnerAppend⟩ : k ≤ behind.length ∧ ∀ m, n ≤ m → ∀ more,
      (readNamedSet (behind ++ more)).elim (readSet m (behind ++ more)) pure = .ok (s, k) := by
    cases hnamed : readNamedSet behind with
    | some found =>
      rw [hnamed] at hinner
      obtain rfl := Except.ok.inj hinner
      refine ⟨(readNamedSet_append hnamed []).1, fun m _ more => ?_⟩
      rw [(readNamedSet_append hnamed more).2]
      rfl
    | none =>
      rw [hnamed] at hinner
      obtain ⟨hk, hmem, hsame⟩ := hset _ _ hinner
      refine ⟨hk, fun m hm more => ?_⟩
      rw [readNamedSet_append_eq_none hnamed hmem]
      exact hsame m hm more
  refine .of_succ ?_ (List.mem_cons_of_mem _ (List.mem_of_mem_drop hbracket)) fun m hm more => ?_
  · rw [List.length_drop] at hused
    rw [List.length_cons]
    dsimp only at hused ⊢
    omega
  · have happend := happend m hm more
    rw [← List.drop_append_of_le_length hk] at happend
    rw [List.cons_append, readSetItems_bracket]
    exact bind_eq_ok.2 ⟨_, hinnerAppend m hm more, bind_eq_ok.2 ⟨_, happend, rfl⟩⟩

/-- Items are settled if the items and sets among them are. -/
theorem settles_readSetItems (hset : Settles readSet n)
    (hitems : ∀ pending items, Settles (readSetItems · pending items) n)
    (pending : Option (CharSet × SetOperator)) (items : List CharSet) :
    Settles (readSetItems · pending items) (n + 1) := by
  intro rest found h
  by_cases hitem : startsItem rest = true
  · exact settled_item (hitems pending) hitem h
  unfold startsItem at hitem
  split at hitem
  · cases h
  · obtain rfl := Except.ok.inj h
    exact .of_succ (by simp) (by simp) fun m _ more => rfl
  · obtain ⟨hused, hbracket, happend⟩ := settled_operand hitems .inter h
    exact .of_succ hused (by simp [hbracket]) happend
  · obtain ⟨hused, hbracket, happend⟩ := settled_operand hitems .diff h
    exact .of_succ hused (by simp [hbracket]) happend
  · obtain ⟨hused, hbracket, happend⟩ := settled_operand hitems .symmDiff h
    exact .of_succ hused (by simp [hbracket]) happend
  · exact settled_bracket hset (hitems pending) h
  · exact absurd rfl hitem

/-! ## Whole sets -/

/-- The caret that negates a set, and what is behind it. -/
def leadingCaret (rest : List Char) : Bool × List Char :=
  match rest with
  | '^' :: tail => (true, tail)
  | _ => (false, rest)

/-- The items that hyphens at the start of a set stand for, or a bracket without hyphens, and what
is behind them. -/
def leadingItems (hyphens behind : List Char) : List CharSet × List Char :=
  match hyphens, behind with
  | [], ']' :: tail => ([CharSet.single ']'], tail)
  | _, _ => (hyphens.map CharSet.single, behind)

/-- A set is what comes first in it, and then its other items. -/
theorem readSet_eq (rest : List Char) :
    readSet (n + 1) rest = do
      let (negated, behind) := leadingCaret rest
      let hyphens := behind.takeWhile (· == '-')
      let (items, behind) := leadingItems hyphens (behind.drop hyphens.length)
      let (s, used) ← readSetItems n none items behind
      return (.bracket negated s, rest.length - behind.length + used) := by
  unfold readSet
  rfl

theorem leadingCaret_append (h : rest ≠ []) (more : List Char) :
    (leadingCaret rest).2 <:+ rest ∧
      leadingCaret (rest ++ more) = ((leadingCaret rest).1, (leadingCaret rest).2 ++ more) := by
  match rest, h with
  | c :: tail, _ =>
    by_cases hc : c = '^'
    · subst hc
      exact ⟨List.suffix_cons _ _, rfl⟩
    · simp [leadingCaret, hc]

theorem leadingItems_append (hyphens : List Char) {behind : List Char} (h : behind ≠ [])
    (more : List Char) :
    (leadingItems hyphens behind).2 <:+ behind ∧
      leadingItems hyphens (behind ++ more) =
        ((leadingItems hyphens behind).1, (leadingItems hyphens behind).2 ++ more) := by
  match behind, h with
  | c :: tail, _ =>
    by_cases hc : hyphens = [] ∧ c = ']'
    · obtain ⟨rfl, rfl⟩ := hc
      exact ⟨List.suffix_cons _ _, rfl⟩
    · have hplain : ∀ tail,
          leadingItems hyphens (c :: tail) = (hyphens.map CharSet.single, c :: tail) := by
        intro tail
        unfold leadingItems
        split <;> simp_all
      rw [List.cons_append, hplain, hplain]
      exact ⟨List.suffix_refl _, rfl⟩

/-- A set is settled if its items are. -/
theorem settles_readSet (hitems : ∀ items, Settles (readSetItems · none items) n) :
    Settles readSet (n + 1) := by
  intro rest found h
  rw [readSet_eq] at h
  generalize hcaret : leadingCaret rest = caret at h
  obtain ⟨negated, behind⟩ := caret
  dsimp only at h
  generalize hhyphens : behind.takeWhile (· == '-') = hyphens at h
  generalize hfirst : leadingItems hyphens (behind.drop hyphens.length) = first at h
  obtain ⟨items, others⟩ := first
  dsimp only at h
  obtain ⟨⟨s, k⟩, hread, h⟩ := bind_eq_ok.1 h
  obtain rfl := Except.ok.inj h
  obtain ⟨hused, hbracket, happend⟩ := hitems _ _ _ hread
  -- the closed bracket is among the other items, so that the front of the set ends before the text
  -- does
  have hdrop : behind.drop hyphens.length ≠ [] := by
    intro hnil
    have hothers : others = [] := by
      rw [hnil] at hfirst
      cases hyphens <;> cases hfirst <;> rfl
    rw [hothers] at hbracket
    cases hbracket
  have hlength : hyphens.length ≠ behind.length :=
    fun he => hdrop (List.drop_eq_nil_of_le (Nat.le_of_eq he.symm))
  have hrest : rest ≠ [] := by
    rintro rfl
    cases hcaret
    exact hdrop List.drop_nil
  have hcaretAppend := leadingCaret_append hrest
  have hfirstAppend := leadingItems_append hyphens hdrop
  rw [hcaret] at hcaretAppend
  rw [hfirst] at hfirstAppend
  have hsuffix : others <:+ rest :=
    ((hfirstAppend []).1.trans (List.drop_suffix _ _)).trans (hcaretAppend []).1
  have hle := hsuffix.length_le
  refine .of_succ ?_ (hsuffix.subset hbracket) fun m hm more => ?_
  · dsimp only at hused ⊢
    omega
  · have hhyphensAppend : (behind ++ more).takeWhile (· == '-') = hyphens := by
      rw [← hhyphens] at hlength ⊢
      exact takeWhile_append_of_ne hlength more
    have hdropAppend : (behind ++ more).drop hyphens.length = behind.drop hyphens.length ++ more :=
      List.drop_append_of_le_length (hhyphens ▸ (List.takeWhile_prefix _).length_le)
    rw [readSet_eq, (hcaretAppend more).2]
    dsimp only
    rw [hhyphensAppend, hdropAppend, (hfirstAppend more).2]
    refine bind_eq_ok.2 ⟨_, happend m hm more, ?_⟩
    dsimp only
    rw [List.length_append, List.length_append, Nat.add_sub_add_right]
    rfl

/-- All that readers of sets read is settled. -/
theorem settles_sets (n : Nat) :
    Settles readSet n ∧ ∀ pending items, Settles (readSetItems · pending items) n := by
  induction n with
  | zero => exact ⟨nofun, nofun⟩
  | succ n ih => exact ⟨settles_readSet (ih.2 none), settles_readSetItems ih.1 ih.2⟩

end

end ConventionalRelease.Regex
