import ConventionalRelease.Proofs.Text.Fronts
import ConventionalRelease.Yaml.Printer

/-!
# Going through a YAML text

Where a cursor is after some characters follows from the characters: on a line it moves to the right
(`Cursor.past_line`), and after line breaks it stands at the beginning of a line
(`Cursor.past_breaks`). The lines that are written begin with spaces up to a column where a token
begins (`Margin`), and a gap that ends a line leads there (`Margin.span_gap`).
-/

namespace ConventionalRelease.Yaml

/-! ## Characters -/

theorem isGap_of_isBreak {c : Char} (h : isBreak c = true) : isGap c = true := by
  rw [isGap, h, Bool.or_true]

theorem isBreak_of_not_isGap {c : Char} (h : isGap c = false) : isBreak c = false := by
  rw [isGap, Bool.or_eq_false_iff] at h
  exact h.2

/-- No break stands among spaces. -/
theorem isBreak_of_mem_spaces {n : Nat} {c : Char} (h : c ∈ spaces n) : isBreak c = false := by
  rw [spaces, List.mem_replicate] at h
  rw [h.2]
  rfl

theorem isGap_of_mem_spaces {n : Nat} {c : Char} (h : c ∈ spaces n) : isGap c = true := by
  rw [spaces, List.mem_replicate] at h
  rw [h.2]
  rfl

/-- A gap that is written as it stands and is no break is a space. -/
theorem eq_space_of_isGap {c : Char} (hwritable : isWritable c = true) (hbreak : isBreak c = false)
    (h : isGap c = true) : c = ' ' := by
  rw [isGap, hbreak, Bool.or_false, isSpace, Bool.or_eq_true, decide_eq_true_eq,
    decide_eq_true_eq] at h
  rcases h with h | rfl
  · exact h
  · cases hwritable

@[simp] theorem length_spaces (n : Nat) : (spaces n).length = n := List.length_replicate

theorem spaces_succ (n : Nat) : spaces (n + 1) = spaces n ++ [' '] := List.replicate_succ'

theorem getLast?_spaces (n : Nat) : (spaces (n + 1)).getLast? = some ' ' := by
  rw [spaces_succ, List.getLast?_concat]

/-! ## Gaps -/

/-- A text that begins with spaces goes on with another character. -/
theorem exists_eq_spaces_append (s : List Char) :
    ∃ n rest, s = spaces n ++ rest ∧ ∀ c, rest.head? = some c → c ≠ ' ' := by
  obtain ⟨front, rest, rfl, hfront, hrest⟩ := Text.exists_eq_append_of_stops (· = ' ') s
  have hspaces : front = spaces front.length :=
    List.eq_replicate_iff.2 ⟨rfl, fun c hc => by simpa using hfront c hc⟩
  refine ⟨front.length, rest, by rw [← hspaces], fun c hc => ?_⟩
  obtain ⟨more, rfl⟩ := List.head?_eq_some_iff.1 hc
  simpa using hrest

theorem filter_isBreak_spaces (n : Nat) : (spaces n).filter isBreak = [] :=
  List.filter_eq_nil_iff.2 fun c hc => by rw [isBreak_of_mem_spaces hc]; exact Bool.false_ne_true

theorem folded_spaces (n : Nat) : folded (spaces n) = spaces n := by
  rw [folded, filter_isBreak_spaces]

/-- Breaks of which the first is no line feed stand as they are, without the spaces after them. -/
theorem folded_breaks {b : Char} {breaks : List Char} (hfeed : b ≠ '\n')
    (h : ∀ c ∈ b :: breaks, isBreak c = true) (n : Nat) :
    folded (b :: breaks ++ spaces n) = b :: breaks := by
  rw [folded, List.filter_append, filter_isBreak_spaces, List.append_nil, List.filter_eq_self.2 h]
  exact if_neg hfeed

namespace Cursor

variable {p : Char → Bool} {b ch : Char} {front rest : List Char}

theorem skip_char (h : isBreak ch = false) (rest : List Char) (l k i : Nat) :
    (mk (ch :: rest) l k i).skip = ⟨rest, l, k + 1, i + 1⟩ := by
  simp [skip, h]

theorem skip_break (h : isBreak b = true) (rest : List Char) (l k i : Nat) :
    (mk (b :: rest) l k i).skip = ⟨rest, l + 1, 0, i + 1⟩ := by
  simp [skip, h]

theorem past_append (c : Cursor) (s t : List Char) : c.past (s ++ t) = (c.past s).past t :=
  List.foldl_append

/-- On a line a cursor moves to the right. -/
theorem past_line (h : ∀ ch ∈ front, isBreak ch = false) (rest : List Char) (l k i : Nat) :
    (mk (front ++ rest) l k i).past front = ⟨rest, l, k + front.length, i + front.length⟩ := by
  induction front generalizing k i with
  | nil => rfl
  | cons ch front ih =>
    obtain ⟨hch, hfront⟩ := List.forall_mem_cons.1 h
    have hskip := skip_char hch (front ++ rest) l k i
    have hrest := ih hfront (k + 1) (i + 1)
    rw [past] at hrest ⊢
    rw [List.foldl_cons, List.cons_append, hskip, hrest]
    simp only [mk.injEq, true_and, List.length_cons]
    omega

/-- After line breaks a cursor is at the beginning of a line. -/
theorem past_breaks (hne : front ≠ []) (h : ∀ ch ∈ front, isBreak ch = true) (rest : List Char)
    (l k i : Nat) :
    (mk (front ++ rest) l k i).past front = ⟨rest, l + front.length, 0, i + front.length⟩ := by
  induction front generalizing l k i with
  | nil => exact absurd rfl hne
  | cons b front ih =>
    obtain ⟨hb, hfront⟩ := List.forall_mem_cons.1 h
    have hskip := skip_break hb (front ++ rest) l k i
    rw [past, List.foldl_cons, List.cons_append, hskip]
    cases front with
    | nil => rfl
    | cons b' front =>
      have hrest := ih (List.cons_ne_nil b' front) hfront (l + 1) 0 (i + 1)
      rw [past] at hrest
      rw [hrest]
      simp only [mk.injEq, true_and, List.length_cons]
      omega

theorem rest_skip {c : Cursor} (h : c.rest = ch :: rest) : c.skip.rest = rest := by
  obtain ⟨s, l, k, i⟩ := c
  obtain rfl : s = ch :: rest := h
  rw [skip]
  dsimp only
  split <;> rfl

/-- After a front of the text a cursor is at the rest. -/
theorem rest_past {c : Cursor} (h : c.rest = front ++ rest) : (c.past front).rest = rest := by
  induction front generalizing c with
  | nil => exact h
  | cons ch front ih =>
    exact ih (rest_skip h)

/-- A cursor never moves up. -/
theorem line_le_line_past (c : Cursor) (front : List Char) : c.line ≤ (c.past front).line := by
  induction front generalizing c with
  | nil => exact Nat.le_refl _
  | cons ch front ih =>
    have hskip : c.line ≤ c.skip.line := by
      rw [skip]
      split
      · exact Nat.le_refl _
      · split
        · exact Nat.le_succ _
        · exact Nat.le_refl _
    exact hskip.trans (ih c.skip)

/-- After a character that is no break a cursor is not at the beginning of a line. -/
theorem column_past_ne_zero {c : Cursor} (h : c.rest = front ++ rest)
    (hlast : front.getLast? = some ch) (hch : isBreak ch = false) : (c.past front).column ≠ 0 := by
  obtain ⟨front, rfl⟩ := List.getLast?_eq_some_iff.1 hlast
  rw [List.append_assoc] at h
  have hrest := rest_past h
  rw [past_append]
  generalize c.past front = d at hrest ⊢
  obtain ⟨rest', l, k, i⟩ := d
  obtain rfl : rest' = ch :: rest := hrest
  have hskip := congrArg column (skip_char hch rest l k i)
  exact fun h => Nat.succ_ne_zero k (hskip.symm.trans h)

/-- The front of characters of a kind, where it is followed by another character. -/
theorem span_eq {c : Cursor} (h : c.rest = front ++ rest) (hfront : ∀ ch ∈ front, p ch = true)
    (hrest : Text.stops p rest = true) : c.span p = (front, c.past front) := by
  rw [span, h, Text.takeWhile_append_of_stops hfront hrest]

theorem span_spaces {n : Nat} (hrest : Text.stops isGap rest = true) (l k i : Nat) :
    (mk (spaces n ++ rest) l k i).span isGap = (spaces n, ⟨rest, l, k + n, i + n⟩) := by
  rw [span_eq rfl (fun c => isGap_of_mem_spaces) hrest, past_line fun c => isBreak_of_mem_spaces,
    length_spaces]

theorem atDocumentMark_of_column {c : Cursor} (h : c.column ≠ 0) : c.atDocumentMark = false := by
  simp [atDocumentMark, startsWithMark, h]

/-- A document mark begins with a dash or a point. -/
theorem atDocumentMark_of_head {c : Cursor} (h : c.rest = ch :: rest) (hdash : ch ≠ '-')
    (hpoint : ch ≠ '.') :
    c.atDocumentMark = false := by
  simp [atDocumentMark, startsWithMark, h, beginMark, endMark, hdash, hpoint]

end Cursor

/-! ## Lines -/

/-- A text begins with a token or is at its end. -/
def BeginsToken (s : List Char) : Prop :=
  ∀ c, s.head? = some c → isGap c = false ∧ c ≠ '#'

theorem BeginsToken.stops {s : List Char} (h : BeginsToken s) : Text.stops isGap s = true := by
  cases s with
  | nil => rfl
  | cons c s => rw [Text.stops_cons, (h c rfl).1, Bool.not_false]

/-- Lines begin with spaces up to a column, where a token begins. -/
structure Margin (column : Nat) (rest text : List Char) : Prop where
  text_eq : text = spaces column ++ rest
  begins : BeginsToken rest

namespace Margin

variable {column : Nat} {rest text : List Char}

/-- A line where a token begins. -/
theorem of_cons {c : Char} (hc : isGap c = false ∧ c ≠ '#') (column : Nat) (rest : List Char) :
    Margin column (c :: rest) (spaces column ++ c :: rest) where
  text_eq := rfl
  begins := by
    rintro d ⟨⟩
    exact hc

/-- The end of the text. -/
theorem of_nil : Margin 0 [] [] := ⟨rfl, nofun⟩

/-- The text goes on neither with a break nor, further left than a block, with a gap. -/
theorem head_spec (h : Margin column rest text) {indent : Nat} :
    ∀ c, rest.head? = some c → isBreak c = false ∧ (column < indent → isGap c = false) := by
  intro c hc
  have hgap := (h.begins c hc).1
  exact ⟨isBreak_of_not_isGap hgap, fun _ => hgap⟩

/-- The gap that breaks and a margin make up leads to the column of the margin. -/
theorem span_gap (h : Margin column rest text) {breaks : List Char} (hne : breaks ≠ [])
    (hbreaks : ∀ c ∈ breaks, isBreak c = true) (l k i : Nat) :
    (Cursor.mk (breaks ++ text) l k i).span isGap = (breaks ++ spaces column,
      ⟨rest, l + breaks.length, column, i + breaks.length + column⟩) := by
  have hgap : ∀ c ∈ breaks ++ spaces column, isGap c = true := by
    intro c hc
    rcases List.mem_append.1 hc with hc | hc
    · exact isGap_of_isBreak (hbreaks c hc)
    · exact isGap_of_mem_spaces hc
  rw [h.text_eq, ← List.append_assoc, Cursor.span_eq rfl hgap h.begins.stops, Cursor.past_append,
    List.append_assoc, Cursor.past_breaks hne hbreaks, Cursor.past_line fun c =>
      isBreak_of_mem_spaces, length_spaces, Nat.zero_add]

end Margin

end ConventionalRelease.Yaml
