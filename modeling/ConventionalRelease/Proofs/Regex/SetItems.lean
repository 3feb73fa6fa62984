import ConventionalRelease.Proofs.Attempt
import ConventionalRelease.Regex.Token

/-!
# Items of sets and the text behind them

What stands after a backslash is read in the same way with more text behind it
(`readEscape_append`), and so are the items of sets in brackets: characters, ranges
(`rangeFrom_append`) and classes with names (`readNamedSet_append`). What is no class with a name is
none with more text behind it either, if there is a bracket in it that no name can hold
(`readNamedSet_append_eq_none`).
-/

namespace ConventionalRelease.Regex

variable {rest more : List Char} {token : Token} {used : Nat}

/-- A front of a text that ends before the text does is the same with more text behind it. -/
theorem takeWhile_append_of_ne {p : Char → Bool} (h : (rest.takeWhile p).length ≠ rest.length)
    (more : List Char) :
    (rest ++ more).takeWhile p = rest.takeWhile p := by
  rw [List.takeWhile_append, if_neg h]

/-! ## Escapes -/

/-- The character of a code point, read from its digits and the number of characters that they
take. -/
def ofDigits (digits : List Char) (used : Nat) : Except Error (Char × Nat) :=
  match numeral? 16 digits >>= scalar? with
  | some c => pure (c, used)
  | none => throw .escape

theorem readCodePoint_braced {width : Nat} {inside : List Char} :
    readCodePoint width ('\x7b' :: inside) =
      if (inside.takeWhile (· != '\x7d')).length < inside.length then
        ofDigits (inside.takeWhile (· != '\x7d')) ((inside.takeWhile (· != '\x7d')).length + 2)
      else throw .escape := by
  simp only [readCodePoint]
  by_cases hclosed : (inside.takeWhile (· != '\x7d')).length < inside.length
  · rw [if_pos hclosed, if_pos hclosed]; rfl
  · rw [if_neg hclosed, if_neg hclosed]

theorem readCodePoint_plain {width : Nat} (h : rest.head? ≠ some '\x7b') :
    readCodePoint width rest =
      if width ≤ rest.length then ofDigits (rest.take width) width else throw .escape := by
  unfold readCodePoint
  split
  · exact absurd rfl h
  · by_cases hwidth : width ≤ rest.length
    · rw [if_pos hwidth, if_pos hwidth]; rfl
    · rw [if_neg hwidth, if_neg hwidth]

theorem used_of_ofDigits {digits : List Char} {n : Nat} {c : Char}
    (h : ofDigits digits n = .ok (c, used)) :
    n = used := by
  rw [ofDigits] at h
  split at h <;> cases h
  rfl

/-- A code point is read from its digits alone. -/
theorem readCodePoint_append {width : Nat} {c : Char} (hwidth : 0 < width)
    (h : readCodePoint width rest = .ok (c, used)) (more : List Char) :
    used ≤ rest.length ∧ readCodePoint width (rest ++ more) = .ok (c, used) := by
  by_cases hbrace : rest.head? = some '\x7b'
  · obtain ⟨inside, rfl⟩ := List.head?_eq_some_iff.1 hbrace
    rw [readCodePoint_braced] at h
    split at h
    · next hclosed =>
      rw [List.cons_append, readCodePoint_braced, takeWhile_append_of_ne (Nat.ne_of_lt hclosed),
        if_pos (by rw [List.length_append]; omega)]
      exact ⟨used_of_ofDigits h ▸ Nat.succ_le_succ hclosed, h⟩
    · cases h
  · rw [readCodePoint_plain hbrace] at h
    split at h
    · next hle =>
      have hhead : (rest ++ more).head? = rest.head? :=
        List.head?_append_of_ne_nil _ (List.ne_nil_of_length_pos (Nat.lt_of_lt_of_le hwidth hle))
      rw [readCodePoint_plain (hhead ▸ hbrace), List.take_append_of_le_length hle,
        if_pos (by rw [List.length_append]; omega)]
      exact ⟨used_of_ofDigits h ▸ hle, h⟩
    · cases h

/-- What stands after a backslash is read from its first characters. -/
theorem readEscape_append (h : readEscape rest = .ok (token, used)) (more : List Char) :
    used ≤ rest.length ∧ readEscape (rest ++ more) = .ok (token, used) := by
  have hcode : ∀ (width : Nat) (tail : List Char), 0 < width →
      (readCodePoint width tail >>= fun p => pure (Token.char p.1, p.2 + 1)) =
        Except.ok (token, used) →
      used ≤ tail.length + 1 ∧
        (readCodePoint width (tail ++ more) >>= fun p => pure (Token.char p.1, p.2 + 1)) =
          Except.ok (token, used) := by
    intro width tail hwidth h
    obtain ⟨⟨c, n⟩, hread, hpure⟩ := bind_eq_ok.1 h
    obtain ⟨hn, happend⟩ := readCodePoint_append hwidth hread more
    rw [happend]
    cases hpure
    exact ⟨Nat.succ_le_succ hn, rfl⟩
  revert h
  -- the cases of `x`, `u` and `U` have the digits of a code point behind them, and no other case
  -- has anything
  fun_cases readEscape rest with
  | case1 | case24 =>
    intro h
    cases h
  | case20 tail => exact hcode 2 tail (by decide)
  | case21 tail => exact hcode 4 tail (by decide)
  | case22 tail => exact hcode 8 tail (by decide)
  | case23 c tail =>
    clear hcode
    rintro ⟨⟩
    exact ⟨by simp, by simp_all [readEscape]; rfl⟩
  | _ =>
    rintro ⟨⟩
    exact ⟨by simp, rfl⟩

/-! ## Classes with names -/

/-- A class named up to a colon, if its name is followed by a closed bracket. -/
def namedUpTo (negated : Bool) (before : Nat) (rest : List Char) : Option (CharSet × Nat) :=
  let name := rest.takeWhile (· != ':')
  match rest.drop name.length with
  | ':' :: ']' :: _ => do
    let s ← namedSet? (String.ofList name)
    return (if negated then .compl s else s, before + name.length + 2)
  | _ => none

/-- A class is marked by a colon, and negated by a caret. -/
theorem readNamedSet_cons_cons (c d : Char) (tail : List Char) :
    readNamedSet (c :: d :: tail) =
      if c = ':' then
        if d = '^' then namedUpTo true 2 tail else namedUpTo false 1 (d :: tail)
      else none := by
  by_cases hc : c = ':'
  · subst hc
    by_cases hd : d = '^'
    · subst hd
      rfl
    · rw [if_pos rfl, if_neg hd, readNamedSet]
      · rfl
      · exact fun _ hcaret => hd (List.cons.inj hcaret).1
  · simp [readNamedSet, hc]

/-- No name of a class holds a bracket. -/
theorem not_mem_of_namedSet? {name : List Char} {s : CharSet}
    (h : namedSet? (String.ofList name) = some s) :
    ']' ∉ name := by
  have hname : ∀ text : String, (namedSet? text).isSome = true → ']' ∉ text.toList := by
    intro text htext
    unfold namedSet? at htext
    split at htext
    all_goals first | decide | cases htext
  simpa using hname (String.ofList name) (Option.isSome_of_eq_some h)

/-- What is read of a class is its name and the marks around it. -/
theorem namedUpTo_eq_some {negated : Bool} {before : Nat} {found : CharSet × Nat} :
    namedUpTo negated before rest = some found ↔ ∃ name tail s, rest = name ++ ':' :: ']' :: tail ∧
      ':' ∉ name ∧ namedSet? (String.ofList name) = some s ∧
      found = (if negated then .compl s else s, before + name.length + 2) := by
  constructor
  · intro h
    rw [namedUpTo] at h
    split at h
    · next tail htail =>
      obtain ⟨s, hs, hfound⟩ := Option.bind_eq_some_iff.1 h
      refine ⟨_, tail, s, ?_, ?_, hs, (Option.some.inj hfound).symm⟩
      · rw [← htail]
        exact (List.prefix_iff_eq_append.1 (List.takeWhile_prefix _)).symm
      · intro hmem
        simpa using List.all_eq_true.1 List.all_takeWhile _ hmem
    · cases h
  · rintro ⟨name, tail, s, rfl, hcolon, hs, rfl⟩
    have htake : (name ++ ':' :: ']' :: tail).takeWhile (· != ':') = name := by
      have hname : ∀ c ∈ name, (c != ':') = true :=
        fun c hc => bne_iff_ne.2 fun e => hcolon (e ▸ hc)
      rw [List.takeWhile_append_of_pos hname]
      simp
    rw [namedUpTo, htake, List.drop_left]
    simp [hs]

/-- A class that is read up to a colon is read in the same way with more behind it. -/
theorem namedUpTo_append {negated : Bool} {before : Nat} {found : CharSet × Nat}
    (h : namedUpTo negated before rest = some found) (more : List Char) :
    found.2 ≤ before + rest.length ∧ namedUpTo negated before (rest ++ more) = some found := by
  obtain ⟨name, tail, s, rfl, hcolon, hs, rfl⟩ := namedUpTo_eq_some.1 h
  refine ⟨by simp; omega, namedUpTo_eq_some.2 ⟨name, tail ++ more, s, by simp, hcolon, hs, rfl⟩⟩

/-- What is no class is none with more behind it, if it holds a bracket. -/
theorem namedUpTo_append_eq_none {negated : Bool} {before : Nat}
    (h : namedUpTo negated before rest = none) (hmem : ']' ∈ rest) (more : List Char) :
    namedUpTo negated before (rest ++ more) = none := by
  refine Option.eq_none_iff_forall_ne_some.2 fun found hfound => ?_
  obtain ⟨name, tail, s, hrest, hcolon, hs, rfl⟩ := namedUpTo_eq_some.1 hfound
  have hname : ']' ∉ name := not_mem_of_namedSet? hs
  rcases List.append_eq_append_iff.1 hrest with ⟨front, rfl, -⟩ | ⟨front, rfl, hfront⟩
  · exact hname (List.mem_append_left _ hmem)
  · match front, hfront with
    | [], _ => exact hname (by simpa using hmem)
    | [_], hfront =>
      cases hfront
      exact hname (by simpa using hmem)
    | _ :: _ :: front, hfront =>
      cases hfront
      have hsome : namedUpTo negated before (name ++ ':' :: ']' :: front) =
          some (if negated then .compl s else s, _) :=
        namedUpTo_eq_some.2 ⟨name, front, s, rfl, hcolon, hs, rfl⟩
      exact Option.some_ne_none _ (hsome.symm.trans h)

theorem readNamedSet_append {found : CharSet × Nat} (h : readNamedSet rest = some found)
    (more : List Char) :
    found.2 ≤ rest.length ∧ readNamedSet (rest ++ more) = some found := by
  match rest with
  | [] => cases h
  | [c] => by_cases hc : c = ':' <;> simp [readNamedSet, hc] at h
  | c :: d :: tail =>
    rw [List.length_cons, List.length_cons]
    rw [readNamedSet_cons_cons] at h
    rw [List.cons_append, List.cons_append, readNamedSet_cons_cons]
    split_ifs at h ⊢
    · obtain ⟨hle, happend⟩ := namedUpTo_append h more
      exact ⟨by omega, happend⟩
    · obtain ⟨hle, happend⟩ := namedUpTo_append h more
      rw [List.length_cons] at hle
      exact ⟨by omega, happend⟩

theorem readNamedSet_append_eq_none (h : readNamedSet rest = none) (hmem : ']' ∈ rest)
    (more : List Char) :
    readNamedSet (rest ++ more) = none := by
  match rest with
  | [] => cases hmem
  | [c] =>
    obtain rfl := List.mem_singleton.1 hmem
    rfl
  | c :: d :: tail =>
    rw [readNamedSet_cons_cons] at h
    rw [List.cons_append, List.cons_append, readNamedSet_cons_cons]
    split_ifs at h ⊢ with hc hd
    · subst hc hd
      exact namedUpTo_append_eq_none h (by simpa using hmem) more
    · subst hc
      exact namedUpTo_append_eq_none h (by simpa using hmem) more
    · rfl

/-! ## Items and ranges -/

/-- An item is read from its first characters. -/
theorem readSetItem_append (h : readSetItem rest = .ok (token, used)) (more : List Char) :
    0 < used ∧ used ≤ rest.length ∧ readSetItem (rest ++ more) = .ok (token, used) := by
  by_cases hslash : rest.head? = some '\\'
  · obtain ⟨tail, rfl⟩ := List.head?_eq_some_iff.1 hslash
    obtain ⟨⟨item, n⟩, hread, hitem⟩ := bind_eq_ok.1 h
    obtain ⟨hle, happend⟩ := readEscape_append hread more
    have hused : used = n + 1 := by
      cases item <;> cases hitem <;> rfl
    exact ⟨hused ▸ Nat.succ_pos n, hused ▸ Nat.succ_le_succ hle, bind_eq_ok.2 ⟨_, happend, hitem⟩⟩
  · match rest with
    | [] => cases h
    | c :: tail =>
      have hplain : ∀ tail, readSetItem (c :: tail) = .ok (.char c, 1) := by
        intro tail
        unfold readSetItem
        split
        · simp_all
        · simp_all
        · next heq =>
          cases heq
          rfl
      rw [hplain] at h
      cases h
      exact ⟨Nat.one_pos, by simp, hplain _⟩

/-- Whether a range goes on from its first end: a hyphen stands there, and not for itself. -/
def continuesRange : List Char → Bool
  | '-' :: next :: _ => next != ']' && next != '-'
  | ['-'] => true
  | _ => false

/-- An item of a set whose first character or class was read: a range, if one goes on behind it. -/
def rangeFrom (first : Token) (used : Nat) (behind : List Char) : Except Error (CharSet × Nat) :=
  if continuesRange behind then do
    let (last, used') ← readSetItem (behind.drop 1)
    match first, last with
    | .char lo, .char hi =>
      if lo ≤ hi then pure (CharSet.range lo hi, used + 1 + used') else throw .setRange
    | _, _ => throw .setRange
  else match first with
    | .char c => pure (CharSet.single c, used)
    | .set s => pure (s, used)
    | _ => throw .setItem

/-- Where a text goes on past its first character, what continues a range does so with more behind
it. -/
theorem continuesRange_append {c d : Char} (tail more : List Char) :
    continuesRange (c :: d :: tail ++ more) = continuesRange (c :: d :: tail) := by
  by_cases hc : c = '-'
  · subst hc
    rfl
  · simp [continuesRange, hc]

/-- A range is read from its first characters, if something is left of the text behind it. -/
theorem rangeFrom_append {first : Token} {n : Nat} {item : CharSet}
    (h : rangeFrom first n rest = .ok (item, used)) (hrest : rest ≠ []) (more : List Char) :
    n ≤ used ∧ used ≤ n + rest.length ∧ rangeFrom first n (rest ++ more) = .ok (item, used) := by
  have hcontinues : continuesRange (rest ++ more) = continuesRange rest := by
    match rest, hrest with
    | [c], _ =>
      by_cases hc : c = '-'
      · subst hc
        cases h
      · simp [continuesRange, hc]
    | c :: d :: tail, _ => exact continuesRange_append tail more
  have htail : (rest ++ more).drop 1 = rest.drop 1 ++ more :=
    List.drop_append_of_le_length (List.length_pos_iff.2 hrest)
  unfold rangeFrom at h ⊢
  rw [hcontinues, htail]
  split at h
  · next hrange =>
    rw [if_pos hrange]
    obtain ⟨⟨last, n'⟩, hlast, hitem⟩ := bind_eq_ok.1 h
    obtain ⟨-, hle, happend⟩ := readSetItem_append hlast more
    have hused : used = n + 1 + n' := by
      cases first <;> cases last <;> try cases hitem
      next lo hi =>
        dsimp only at hitem
        split at hitem <;> cases hitem
        rfl
    have hlength : (rest.drop 1).length + 1 = rest.length := by
      rw [List.length_drop]
      exact Nat.sub_add_cancel (List.length_pos_iff.2 hrest)
    exact ⟨by omega, by omega, bind_eq_ok.2 ⟨_, happend, hitem⟩⟩
  · next hrange =>
    rw [if_neg hrange]
    have hused : used = n := by
      cases first <;> cases h <;> rfl
    exact ⟨by omega, by omega, h⟩

end ConventionalRelease.Regex
