import ConventionalRelease.Proofs.Regex.SetReading

/-!
# Tokens and the text behind them

A token is read in the same way with more text behind it (`Token.read_append`), unless that starts
with a question mark, which turns round the greed of a repetition and gives a parenthesis another
meaning. So texts that can be read by themselves are read one after the other
(`Token.ofText_append`).
-/

namespace ConventionalRelease.Regex

variable {rest more : List Char} {token : Token} {used : Nat}

/-! ## Groups and repetitions -/

/-- A name is read up to its closing bracket. -/
theorem readName_append {name : String} (h : readName rest = .ok (name, used)) (more : List Char) :
    used ≤ rest.length ∧ readName (rest ++ more) = .ok (name, used) := by
  unfold readName at h ⊢
  dsimp only at h ⊢
  split at h
  · cases h
  · next hlength =>
    have hle : (rest.takeWhile (· != '>')).length ≤ rest.length :=
      (List.takeWhile_prefix _).length_le
    rw [takeWhile_append_of_ne hlength, if_neg (by rw [List.length_append]; omega)]
    refine ⟨?_, h⟩
    split at h
    · cases h
    · split at h <;> cases h
      omega

/-- What is left behind a front is not empty if it starts with something. -/
theorem ne_of_drop_eq_cons {front tail : List Char} {c : Char}
    (h : rest.drop front.length = c :: tail) :
    front.length ≠ rest.length := by
  intro hlength
  rw [List.drop_eq_nil_of_le (Nat.le_of_eq hlength.symm)] at h
  cases h

/-- A named group, `n` characters after its parenthesis. -/
def namedGroup (n : Nat) (rest : List Char) : Except Error (Token × Nat) := do
  let (name, used) ← readName rest
  return (.opening (.capture (some name)), used + n)

/-- A change of flags, or a group that is not recorded. -/
def flagGroup (rest : List Char) : Except Error (Token × Nat) := do
  let letters := rest.takeWhile fun c => c != ':' && c != ')'
  match rest.drop letters.length with
  | ':' :: _ => return (.opening (.plain (← readFlags [] true letters)), letters.length + 2)
  | ')' :: _ =>
    if letters.isEmpty then throw .nothingToRepeat
    return (.flags (← readFlags [] true letters), letters.length + 2)
  | _ => throw .groupUnclosed

/-- What a question mark behind a parenthesis starts is told by the two characters behind it. -/
theorem readOpening_question (c d : Char) (tail : List Char) :
    readOpening ('?' :: c :: d :: tail) =
      if c = '=' ∨ c = '!' ∨ c = '<' ∧ (d = '=' ∨ d = '!') then throw .lookAround
      else if c = 'P' ∧ d = '<' then namedGroup 3 tail
      else if c = '<' then namedGroup 2 (d :: tail)
      else flagGroup (c :: d :: tail) := by
  unfold readOpening
  split
  · next heq => cases heq; simp
  · next heq => cases heq; simp
  · next heq => cases heq; simp
  · next heq => cases heq; simp
  · next heq => cases heq; simp [namedGroup]
  · next hequal hnot heq =>
    cases heq
    simp_all [namedGroup]
  · next hequal hnot hequal' hnot' hnamed hangle heq =>
    cases heq
    have hlook : ¬ (c = '=' ∨ c = '!' ∨ c = '<' ∧ (d = '=' ∨ d = '!')) := by simp_all
    have hnamed : ¬ (c = 'P' ∧ d = '<') := by simp_all
    have hangle : c ≠ '<' := by simp_all
    rw [if_neg hlook, if_neg hnamed, if_neg hangle]
    rfl
  · next hne => exact absurd rfl (hne _)

/-- Of one character behind the question mark, only the colon is read by itself. -/
theorem eq_of_readOpening {c : Char} (h : readOpening ['?', c] = .ok (token, used)) : c = ':' := by
  by_contra hc
  unfold readOpening at h
  split at h
  · cases h
  · cases h
  · cases h
  · cases h
  · next heq => cases heq
  · next heq => cases heq; cases h
  · next heq =>
    cases heq
    by_cases hclose : c = ')'
    · subst hclose
      cases h
    · simp [hc, hclose] at h
  · next hne => exact absurd rfl (hne _)

theorem namedGroup_append {n : Nat} (h : namedGroup n rest = .ok (token, used)) (more : List Char) :
    used ≤ n + rest.length ∧ namedGroup n (rest ++ more) = .ok (token, used) := by
  obtain ⟨⟨name, k⟩, hname, h⟩ := bind_eq_ok.1 h
  obtain ⟨hle, happend⟩ := readName_append hname more
  cases h
  exact ⟨by omega, bind_eq_ok.2 ⟨_, happend, rfl⟩⟩

theorem flagGroup_append (h : flagGroup rest = .ok (token, used)) (more : List Char) :
    used ≤ 1 + rest.length ∧ flagGroup (rest ++ more) = .ok (token, used) := by
  unfold flagGroup at h ⊢
  dsimp only at h ⊢
  generalize hletters : rest.takeWhile (fun c => c != ':' && c != ')') = letters at h
  cases hdrop : rest.drop letters.length with
  | nil =>
    rw [hdrop] at h
    cases h
  | cons c behind =>
    have hne : letters.length ≠ rest.length := ne_of_drop_eq_cons hdrop
    have hmore : (rest ++ more).takeWhile (fun c => c != ':' && c != ')') = letters := by
      rw [← hletters] at hne ⊢
      exact takeWhile_append_of_ne hne more
    have hmoreDrop : (rest ++ more).drop letters.length = c :: (behind ++ more) := by
      rw [List.drop_append_of_le_length (hletters ▸ (List.takeWhile_prefix _).length_le), hdrop]
      rfl
    rw [hdrop] at h
    rw [hmore, hmoreDrop]
    have hle : letters.length < rest.length :=
      Nat.lt_of_le_of_ne (hletters ▸ (List.takeWhile_prefix _).length_le) hne
    split at h
    · next heq =>
      cases heq
      obtain ⟨changes, hchanges, h⟩ := bind_eq_ok.1 h
      cases h
      exact ⟨by omega, bind_eq_ok.2 ⟨_, hchanges, rfl⟩⟩
    · next heq =>
      cases heq
      split at h
      · cases h
      · next hletters =>
        obtain ⟨changes, hchanges, h⟩ := bind_eq_ok.1 h
        cases h
        rw [if_neg hletters]
        exact ⟨by omega, bind_eq_ok.2 ⟨_, hchanges, rfl⟩⟩
    · cases h

/-- A parenthesis without a question mark behind it opens a recorded group. -/
theorem readOpening_plain (h : rest.head? ≠ some '?') :
    readOpening rest = .ok (.opening (.capture none), 0) := by
  unfold readOpening
  split
  all_goals first | exact absurd rfl h | rfl

/-- What a parenthesis opens is read up to the colon or the parenthesis behind its flags, or the
bracket behind its name. -/
theorem readOpening_append (h : readOpening rest = .ok (token, used))
    (hmore : more.head? ≠ some '?') :
    used ≤ rest.length ∧ readOpening (rest ++ more) = .ok (token, used) := by
  by_cases hhead : rest.head? = some '?'
  · obtain ⟨tail, rfl⟩ := List.head?_eq_some_iff.1 hhead
    match tail with
    | [] => cases h
    | [c] =>
      obtain rfl := eq_of_readOpening h
      cases h
      exact ⟨by simp, rfl⟩
    | c :: d :: tail =>
      rw [readOpening_question] at h
      rw [List.cons_append, List.cons_append, List.cons_append, readOpening_question]
      split_ifs at h ⊢
      · obtain ⟨hle, happend⟩ := namedGroup_append h more
        exact ⟨by simp only [List.length_cons]; omega, happend⟩
      · obtain ⟨hle, happend⟩ := namedGroup_append h more
        exact ⟨by simp only [List.length_cons] at hle ⊢; omega, happend⟩
      · obtain ⟨hle, happend⟩ := flagGroup_append h more
        exact ⟨by simp only [List.length_cons] at hle ⊢; omega, happend⟩
  · rw [readOpening_plain hhead] at h
    cases h
    refine ⟨Nat.zero_le _, readOpening_plain ?_⟩
    cases rest with
    | nil => exact hmore
    | cons c tail => exact hhead

/-- A mark that turns round the greed of a repetition is read with it. -/
theorem readRepetition_append {min used : Nat} {max : Option Nat} (hmore : more.head? ≠ some '?') :
    readRepetition min max used (rest ++ more) = readRepetition min max used rest := by
  match rest with
  | [] =>
    unfold readRepetition
    split
    · next heq =>
      rw [List.nil_append] at heq
      rw [heq] at hmore
      exact absurd rfl hmore
    · rfl
  | c :: rest =>
    by_cases hc : c = '?'
    · subst hc
      rfl
    · simp [readRepetition, hc]

theorem used_readRepetition {min n : Nat} {max : Option Nat}
    (h : readRepetition min max n rest = (token, used)) :
    used ≤ n + rest.length := by
  unfold readRepetition at h
  split at h <;> cases h
  · simp
  · exact Nat.le_add_right _ _

/-- The bounds that stand between braces. -/
def boundsIn (inside : List Char) : Except Error (Nat × Option Nat) := do
  let low := inside.takeWhile (· != ',')
  let min ← readBound low
  let max ← match inside.drop low.length with
    | [] => pure (some min)
    | [_] => pure none
    | _ :: high => do pure (some (← readBound high))
  if max.any (· < min) then throw .repeatBounds
  return (min, max)

theorem readBounds_eq (rest : List Char) :
    readBounds rest =
      if (rest.takeWhile (· != '\x7d')).length = rest.length then throw .repeatBounds
      else do
        let (min, max) ← boundsIn (rest.takeWhile (· != '\x7d'))
        return readRepetition min max ((rest.takeWhile (· != '\x7d')).length + 1)
          (rest.drop ((rest.takeWhile (· != '\x7d')).length + 1)) := by
  unfold readBounds boundsIn
  dsimp only
  split
  · rfl
  · rw [bind_assoc]
    refine bind_congr fun min => ?_
    generalize ((rest.takeWhile (· != '\x7d')).drop _) = high
    match high with
    | [] =>
      simp only [pure_bind]
      split <;> rfl
    | [c] =>
      simp only [pure_bind]
      split <;> rfl
    | c :: d :: high =>
      simp only [bind_assoc, pure_bind]
      refine bind_congr fun max => ?_
      split <;> rfl

/-- Bounds are read up to the closing brace, with the mark behind it. -/
theorem readBounds_append (h : readBounds rest = .ok (token, used))
    (hmore : more.head? ≠ some '?') :
    used ≤ rest.length ∧ readBounds (rest ++ more) = .ok (token, used) := by
  rw [readBounds_eq] at h ⊢
  split at h
  · cases h
  · next hlength =>
    have hle : (rest.takeWhile (· != '\x7d')).length ≤ rest.length :=
      (List.takeWhile_prefix _).length_le
    rw [takeWhile_append_of_ne hlength, if_neg (by rw [List.length_append]; omega),
      List.drop_append_of_le_length (by omega)]
    obtain ⟨⟨min, max⟩, hbounds, h⟩ := bind_eq_ok.1 h
    have hused := used_readRepetition (Except.ok.inj h)
    rw [List.length_drop] at hused
    refine ⟨by omega, bind_eq_ok.2 ⟨_, hbounds, ?_⟩⟩
    dsimp only
    rw [readRepetition_append hmore]
    exact h

namespace Token

/-- A token is read in the same way with more text behind it, unless that starts with a question
mark. -/
theorem read_append {c : Char} (h : read c rest = .ok (token, used))
    (hmore : more.head? ≠ some '?') :
    used ≤ rest.length ∧ read c (rest ++ more) = .ok (token, used) := by
  have hrepetition : ∀ min max,
      (.ok (readRepetition min max 0 rest) : Except Error (Token × Nat)) = .ok (token, used) →
      used ≤ rest.length ∧
        (.ok (readRepetition min max 0 (rest ++ more)) : Except Error (Token × Nat)) =
          .ok (token, used) := by
    intro min max h
    have hused := used_readRepetition (Except.ok.inj h)
    rw [readRepetition_append hmore]
    exact ⟨by omega, h⟩
  revert h
  fun_cases read c rest with
  | case1 => exact fun h => readEscape_append h more
  | case7 => exact fun h => readOpening_append h hmore
  | case8 =>
    intro h
    obtain ⟨⟨s, n⟩, hset, h⟩ := bind_eq_ok.1 h
    obtain ⟨hused, -, happend⟩ := (settles_sets _).1 _ _ hset
    cases h
    refine ⟨hused, bind_eq_ok.2 ⟨_, happend _ ?_ more, rfl⟩⟩
    rw [List.length_append]
    omega
  | case9 => exact hrepetition 0 none
  | case10 => exact hrepetition 1 none
  | case11 => exact hrepetition 0 (some 1)
  | case12 => exact fun h => readBounds_append h hmore
  | case13 =>
    rintro ⟨⟩
    exact ⟨Nat.zero_le _, by simp_all [read]; rfl⟩
  | _ =>
    rintro ⟨⟩
    exact ⟨Nat.zero_le _, rfl⟩

/-- Texts are read one after the other, if the second does not start with a question mark. -/
theorem ofTextFrom_append {skip : Nat} {s : List Char} {tokens others : List Token}
    (h : ofTextFrom skip s = .ok tokens) (hskip : skip ≤ s.length) (hmore : more.head? ≠ some '?')
    (hothers : ofText more = .ok others) :
    ofTextFrom skip (s ++ more) = .ok (tokens ++ others) := by
  induction s generalizing skip tokens with
  | nil =>
    obtain rfl := Nat.le_zero.1 hskip
    cases h
    exact hothers
  | cons c s ih =>
    cases skip with
    | succ skip => exact ih h (Nat.le_of_succ_le_succ hskip)
    | zero =>
      obtain ⟨⟨token, used⟩, hread, h⟩ := bind_eq_ok.1 h
      obtain ⟨rest, hrest, h⟩ := bind_eq_ok.1 h
      cases h
      obtain ⟨hused, happend⟩ := read_append hread hmore
      exact bind_eq_ok.2 ⟨_, happend, bind_eq_ok.2 ⟨_, ih hrest hused, rfl⟩⟩

/-- Texts are read one after the other, if the second does not start with a question mark. -/
theorem ofText_append {s : List Char} {tokens others : List Token} (h : ofText s = .ok tokens)
    (hmore : more.head? ≠ some '?') (hothers : ofText more = .ok others) :
    ofText (s ++ more) = .ok (tokens ++ others) :=
  ofTextFrom_append h (Nat.zero_le _) hmore hothers

end Token

end ConventionalRelease.Regex
