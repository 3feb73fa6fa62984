import ConventionalRelease.Proofs.Attempt
import ConventionalRelease.Proofs.Text.Fronts
import ConventionalRelease.Regex.Pattern

/-!
# Literal texts in patterns

An escaped text is read as the characters it stands for (`Token.ofTextFrom_escape`,
`Builder.run_chars`), and matches just that text (`ways_literals`). The rest of a line is matched up
to the line's end before any shorter way is tried (`ways_restOfLine`).
-/

namespace ConventionalRelease.Regex

/-- One character that stands for itself. -/
def literal (c : Char) : Regex := .one (.single c)

/-- Everything up to the end of the line. -/
def restOfLine : Regex := optional true (.many true (.one .exceptLineFeed))

/-! ## Reading -/

namespace Token

theorem ofTextFrom_length_append (front s : List Char) :
    ofTextFrom front.length (front ++ s) = ofTextFrom 0 s := by
  induction front with
  | nil => rfl
  | cons c front ih => exact ih

/-- A token and the characters that belong to it are read before the rest of the text. -/
theorem ofTextFrom_read {c : Char} (front : List Char) {rest : List Char} {token : Token}
    {tokens : List Token} (h : read c (front ++ rest) = .ok (token, front.length))
    (hrest : ofTextFrom 0 rest = .ok tokens) :
    ofTextFrom 0 (c :: (front ++ rest)) = .ok (token :: tokens) := by
  rw [← ofTextFrom_length_append front rest] at hrest
  rw [ofTextFrom, h]
  exact bind_eq_ok.2 ⟨_, rfl, bind_eq_ok.2 ⟨tokens, hrest, rfl⟩⟩

/-- A character that patterns give a meaning stands for itself after a backslash. -/
theorem read_escaped {c : Char} (h : isMeta c = true) (rest : List Char) :
    read '\\' (c :: rest) = .ok (.char c, 1) := by
  simp only [isMeta, List.mem_cons, List.not_mem_nil, or_false, decide_eq_true_eq] at h
  rcases h with
    h | h | h | h | h | h | h | h | h | h | h | h | h | h | h | h | h | h <;> subst h <;> rfl

/-- Any other character stands for itself as it is. -/
theorem read_plain {c : Char} (h : isMeta c = false) (rest : List Char) :
    read c rest = .ok (.char c, 0) := by
  simp only [isMeta, List.mem_cons, List.not_mem_nil, or_false, decide_eq_false_iff_not,
    not_or] at h
  unfold read
  split <;> first | rfl | simp_all

/-- An escaped text is read as its characters. -/
theorem ofTextFrom_escape (s : List Char) {rest : List Char} {tokens : List Token}
    (h : ofTextFrom 0 rest = .ok tokens) :
    ofTextFrom 0 (escape s ++ rest) = .ok (s.map .char ++ tokens) := by
  induction s with
  | nil => exact h
  | cons c s ih =>
    rw [escape, List.flatMap_cons, List.append_assoc]
    cases hc : isMeta c with
    | true => exact ofTextFrom_read [c] (read_escaped hc _) ih
    | false => exact ofTextFrom_read [] (read_plain hc _) ih

end Token

/-- Characters are added one after the other. -/
theorem Builder.run_chars {b : Builder} (hcase : b.level.flags.caseless = false)
    (hrep : b.level.repeatable = true) (s : List Char) (tokens : List Token) :
    b.run (s.map .char ++ tokens) =
      { b with level := { b.level with items := (s.map literal).reverse ++ b.level.items } }.run
        tokens := by
  induction s generalizing b with
  | nil => rfl
  | cons c s ih =>
    have hstep : b.step (.char c) = .ok (b.push (literal c)) := by
      rw [step, pushSet, hcase]; rfl
    rw [List.map_cons, List.cons_append, run, hstep]
    refine (ih (b := b.push (literal c)) hcase rfl).trans ?_
    simp [push, Level.push, hrep]

/-! ## Matching -/

theorem ways_sequence_cons (p : Regex) (rest : List Regex) (w : Progress) :
    (sequence (p :: rest)).ways w = (p.ways w).flatMap (sequence rest).ways := by
  cases rest with
  | nil => simp [sequence, ways]
  | cons q rest => rfl

/-- A sequence of expressions behind another one matches behind it. -/
theorem ways_sequence_append (parts others : List Regex) (w : Progress) :
    (sequence (parts ++ others)).ways w =
      ((sequence parts).ways w).flatMap (sequence others).ways := by
  induction parts generalizing w with
  | nil => simp [sequence, ways]
  | cons p parts ih =>
    rw [List.cons_append, ways_sequence_cons, ways_sequence_cons, List.flatMap_assoc]
    exact List.flatMap_congr fun v _ => ih v

/-- The characters of a text match if the text is what follows. -/
theorem ways_literals (s : List Char) (rest : List Regex) (w : Progress) :
    (sequence (s.map literal ++ rest)).ways w =
      if s.isPrefixOf w.after then
        (sequence rest).ways
          { w with before := s.reverse ++ w.before, after := w.after.drop s.length }
      else [] := by
  induction s generalizing w with
  | nil => simp
  | cons c s ih =>
    obtain ⟨before, after, groups⟩ := w
    rw [List.map_cons, List.cons_append, ways_sequence_cons]
    cases after with
    | nil => rfl
    | cons d after =>
      simp only [literal, ways, CharSet.contains_single, List.isPrefixOf_cons_cons,
        List.drop_succ_cons, List.length_cons]
      by_cases hd : c = d
      · simp [hd, ih]
      · simp [hd]

/-- A repetition of what matches no line feed goes on to the end of the line, if it can start at
all. -/
theorem head?_repeatFrom {line rest : List Char} (before : List Char)
    (groups : List (Nat × List Char)) (seen : List Nat) (n : Nat)
    (hline : ∀ c ∈ line, (c != '\n') = true) (hrest : Text.stops (· != '\n') rest = true)
    (hseen : ∀ k ∈ seen, (line ++ rest).length ≤ k) (hn : line.length < n) :
    (repeatFrom (ways (.one .exceptLineFeed)) true n ⟨before, line ++ rest, groups⟩ seen).1.head? =
      if line = [] then none else some ⟨line.reverse ++ before, rest, groups⟩ := by
  induction line generalizing before seen n with
  | nil =>
    obtain ⟨n, rfl⟩ := Nat.exists_eq_add_one.mpr hn
    cases rest with
    | nil => rfl
    | cons c rest =>
      have hc : c = '\n' := by simpa using hrest
      simp [repeatFrom, ways, hc]
  | cons c line ih =>
    obtain ⟨n, rfl⟩ := Nat.exists_eq_add_one.mpr (Nat.zero_lt_of_lt hn)
    have hc : (c != '\n') = true := hline c List.mem_cons_self
    -- the places seen have at least as much text left as this one, so the next place is new
    have hnew : (line ++ rest).length ∉ seen := by
      intro h
      have := hseen _ h
      simp only [List.cons_append, List.length_cons] at this
      omega
    have hway : ways (.one .exceptLineFeed) ⟨before, c :: (line ++ rest), groups⟩ =
        [⟨c :: before, line ++ rest, groups⟩] := by
      simp [ways, hc]
    have ih := ih (c :: before) ((line ++ rest).length :: seen) n
      (fun d hd => hline d (List.mem_cons_of_mem _ hd))
      (fun k hk => by
        rcases List.mem_cons.1 hk with rfl | hk
        · exact Nat.le_refl _
        · have := hseen k hk
          simp only [List.cons_append, List.length_cons] at this
          omega)
      (by simpa using hn)
    rw [repeatFrom, List.cons_append, hway]
    simp only [List.foldl_cons, List.foldl_nil, Progress.left, if_neg hnew, if_true,
      List.length_cons, List.nil_append]
    rw [if_neg (Nat.ne_of_lt (Nat.lt_succ_self _)), List.head?_append, ih]
    cases line with
    | nil => rfl
    | cons d line => simp

/-- The rest of the line is matched to its end before anything else is tried. -/
theorem ways_restOfLine (w : Progress) :
    ∃ others, restOfLine.ways w =
      { w with
        before := (w.after.takeWhile (· != '\n')).reverse ++ w.before
        after := w.after.dropWhile (· != '\n') } :: others := by
  obtain ⟨before, after, groups⟩ := w
  have hcut : after.takeWhile (· != '\n') ++ after.dropWhile (· != '\n') = after :=
    List.takeWhile_append_dropWhile
  have hhead := head?_repeatFrom before groups [] (after.length + 1)
    (List.all_eq_true.1 (List.all_takeWhile ..)) (Text.stops_dropWhile after)
    (by simp) (Nat.lt_succ_of_le (List.takeWhile_prefix _).length_le)
  rw [hcut] at hhead
  have hways : restOfLine.ways ⟨before, after, groups⟩ =
      (repeatFrom (ways (.one .exceptLineFeed)) true (after.length + 1) ⟨before, after,
        groups⟩ []).1 ++
        [⟨before, after, groups⟩] := rfl
  rw [hways]
  cases hline : after.takeWhile (· != '\n') with
  | nil =>
    rw [hline, if_pos rfl, List.head?_eq_none_iff] at hhead
    rw [hline, List.nil_append] at hcut
    rw [hhead, hcut]
    exact ⟨[], rfl⟩
  | cons c line =>
    rw [hline, if_neg (List.cons_ne_nil c line), List.head?_eq_some_iff] at hhead
    obtain ⟨others, hothers⟩ := hhead
    rw [hothers]
    exact ⟨others ++ [⟨before, after, groups⟩], rfl⟩

end ConventionalRelease.Regex
