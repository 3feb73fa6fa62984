import ConventionalRelease.Proofs.Yaml.PlainScalar
import ConventionalRelease.Proofs.Yaml.SingleQuotes
import ConventionalRelease.Proofs.Yaml.DoubleQuotes
import ConventionalRelease.Proofs.Yaml.LiteralBlock
import ConventionalRelease.Yaml.Token

/-!
# Steps of a scan

A scan leads to another when the tokens that are read from it are those that are read from the other
(`Scan.LeadsTo`). Between tokens, the text that is left, the column and the block collections that
are open decide what comes next (`Place`), and a place yields tokens up to another place
(`Place.Yields`).
-/

namespace ConventionalRelease.Yaml

namespace Scan

/-- Reading on from one scan comes to the other, after as many tokens as were read. -/
def LeadsTo (s t : Scan) : Prop :=
  ∃ n, n + t.cursor.rest.length ≤ s.cursor.rest.length ∧ ∀ fuel, s.run? (fuel + n) = t.run? fuel

theorem LeadsTo.refl (s : Scan) : s.LeadsTo s := ⟨0, by omega, fun _ => rfl⟩

theorem LeadsTo.trans {s t u : Scan} (h : s.LeadsTo t) (h' : t.LeadsTo u) : s.LeadsTo u := by
  obtain ⟨n, hn, hrun⟩ := h
  obtain ⟨m, hm, hrun'⟩ := h'
  refine ⟨m + n, by omega, fun fuel => ?_⟩
  rw [← Nat.add_assoc, hrun, hrun']

/-- What is read at the end of a way is read at its beginning. -/
theorem LeadsTo.run?_eq {s t : Scan} (h : s.LeadsTo t) {tokens : List Token}
    (ht : ∀ fuel, t.run? (fuel + 1) = some tokens) :
    s.run? (s.cursor.rest.length + 1) = some tokens := by
  obtain ⟨n, hn, hrun⟩ := h
  obtain ⟨m, hm⟩ : ∃ m, s.cursor.rest.length + 1 = m + 1 + n := ⟨s.cursor.rest.length - n, by omega⟩
  rw [hm, hrun, ht]

/-! ## Gaps -/

/-- There is no gap before a token. -/
theorem skipGap_of_begins {s : Scan} (h : BeginsToken s.cursor.rest) (fuel : Nat) :
    s.skipGap fuel = s := by
  cases fuel with
  | zero => rfl
  | succ fuel =>
    rw [skipGap]
    cases hrest : s.cursor.rest with
    | nil => rfl
    | cons c rest =>
      obtain ⟨hgap, hsign⟩ := h c (by rw [hrest]; rfl)
      have hspace : c ≠ ' ' := by
        rintro rfl
        cases hgap
      have htab : c ≠ '\t' := by
        rintro rfl
        cases hgap
      simp [hspace, htab, hsign, isBreak_of_not_isGap hgap]

/-- Two scans that are the same after the gap lead to the same. -/
theorem leadsTo_of_skipGap {s t : Scan} (hlength : t.cursor.rest.length ≤ s.cursor.rest.length)
    (h : s.skipGap (s.cursor.rest.length + 1) = t.skipGap (t.cursor.rest.length + 1)) :
    s.LeadsTo t := by
  refine ⟨0, by omega, fun fuel => ?_⟩
  cases fuel with
  | zero => rfl
  | succ fuel => rw [Nat.add_zero, run?, run?, h]

theorem leadsTo_space (s : Scan) {rest : List Char} {l k i : Nat}
    (h : s.cursor = ⟨' ' :: rest, l, k, i⟩) :
    s.LeadsTo { s with cursor := ⟨rest, l, k + 1, i + 1⟩ } := by
  have hskip : s.skip 1 = { s with cursor := ⟨rest, l, k + 1, i + 1⟩ } := by
    rw [skip, h]
    rfl
  refine leadsTo_of_skipGap (by simp [h]) ?_
  rw [h, skipGap, h]
  simp [hskip]

theorem leadsTo_spaces (s : Scan) {n : Nat} {rest : List Char} {l k i : Nat}
    (h : s.cursor = ⟨spaces n ++ rest, l, k, i⟩) :
    s.LeadsTo { s with cursor := ⟨rest, l, k + n, i + n⟩ } := by
  induction n generalizing s k i with
  | zero =>
    cases s
    subst h
    exact LeadsTo.refl _
  | succ n ih =>
    refine (leadsTo_space s h).trans ?_
    have hrest := ih { s with cursor := ⟨spaces n ++ rest, l, k + 1, i + 1⟩ } rfl
    rwa [Nat.add_right_comm k, Nat.add_right_comm i] at hrest

/-- After a line a key may begin, at the column where the next line begins. -/
theorem leadsTo_margin (s : Scan) {column : Nat} {rest text : List Char}
    (hmargin : Margin column rest text) {l k i : Nat} (h : s.cursor = ⟨'\n' :: text, l, k, i⟩)
    (hflow : s.outerKeys = []) :
    ∃ i', s.LeadsTo { s with cursor := ⟨rest, l + 1, column, i'⟩, keyAllowed := true } := by
  have hskip : s.skip 1 = { s with cursor := ⟨text, l + 1, 0, i + 1⟩ } := by
    rw [skip, h]
    rfl
  have hbreak : s.LeadsTo { s with cursor := ⟨text, l + 1, 0, i + 1⟩, keyAllowed := true } := by
    refine leadsTo_of_skipGap (by simp [h]) ?_
    rw [h, skipGap, h]
    simp [hskip, inFlow, hflow, isBreak]
  have hspaces :=
    leadsTo_spaces { s with cursor := ⟨text, l + 1, 0, i + 1⟩, keyAllowed := true } (n := column)
    (by rw [hmargin.text_eq])
  rw [Nat.zero_add] at hspaces
  exact ⟨_, hbreak.trans hspaces⟩

/-! ## Tokens -/

/-- A scan leads on after a token. -/
theorem leadsTo_of_token? {s t : Scan} {c : Char} {rest : List Char} (h : s.cursor.rest = c :: rest)
    (hbegins : BeginsToken (c :: rest)) (ht : (s.close s.cursor.column).token? c rest = some t)
    (hlength : t.cursor.rest.length ≤ rest.length) : s.LeadsTo t := by
  refine ⟨1, by rw [h, List.length_cons]; omega, fun fuel => ?_⟩
  rw [run?, skipGap_of_begins (h ▸ hbegins), h]
  simp [ht]

/-- A block collection that stands further right than what comes next is at its end. -/
theorem leadsTo_close {s : Scan} (hbegins : BeginsToken s.cursor.rest) {column : Nat}
    {columns : List Nat} (hcolumns : s.columns = column :: columns) (hflow : s.outerKeys = [])
    (h : s.cursor.column < column) :
    s.LeadsTo { s with tokens := s.tokens ++ [.blockEnd], columns := columns } := by
  have hclose : s.close s.cursor.column =
      ({ s with tokens := s.tokens ++ [.blockEnd], columns := columns } : Scan).close
        s.cursor.column := by
    simp [close, inFlow, hflow, hcolumns, h, List.replicate_succ]
  have hcloseAll : s.closeAll =
      ({ s with tokens := s.tokens ++ [.blockEnd], columns := columns } : Scan).closeAll := by
    simp [closeAll, inFlow, hflow, hcolumns, List.replicate_succ]
  refine ⟨0, by simp, fun fuel => ?_⟩
  cases fuel with
  | zero => rfl
  | succ fuel =>
    rw [Nat.add_zero, run?, run?, skipGap_of_begins hbegins,
      skipGap_of_begins (s :=
        { s with tokens := s.tokens ++ [.blockEnd], columns := columns }) hbegins]
    cases hrest : s.cursor.rest with
    | nil => simp [hcloseAll]
    | cons c rest => simp [hclose]

/-- No collection is at its end where none stands further right. -/
theorem close_eq_self {s : Scan} {column : Nat} (h : ∀ k, s.columns.head? = some k → k ≤ column) :
    s.close column = s := by
  have hnone : s.columns.takeWhile (column < ·) = [] ∧
      s.columns.dropWhile (column < ·) = s.columns := by
    cases hcolumns : s.columns with
    | nil => simp
    | cons k columns =>
      have hk := h k (by rw [hcolumns]; rfl)
      simp [Nat.not_lt.2 hk]
  rw [close, hnone.1, hnone.2]
  simp

end Scan

/-! ## Places -/

/-- A place between tokens in block style. -/
structure Place where
  /-- What is left of the text. -/
  rest : List Char
  /-- The column where the rest begins. -/
  column : Nat
  /-- The columns of the block collections that are open, the innermost first. -/
  columns : List Nat
  /-- Whether a key may begin there. -/
  keyAllowed : Bool

/-- What might have been a key is none: it stands on an earlier line, and it need not be one. -/
def IsSpent (key : Option PossibleKey) (line : Nat) : Prop :=
  ∀ k, key = some k → k.required = false ∧ k.start.line < line

namespace Place

/-- A scan that has come to the place. -/
def scan (p : Place) (line index : Nat) (tokens : List Token) (key : Option PossibleKey) :
    Scan where
  cursor := ⟨p.rest, line, p.column, index⟩
  tokens := tokens
  columns := p.columns
  possibleKey := key
  keyAllowed := p.keyAllowed

/-- From the place the tokens are read up to another place. -/
def Yields (p : Place) (tokens : List Token) (q : Place) : Prop :=
  ∀ before line index key, IsSpent key line → ∃ line' index' key', IsSpent key' line' ∧
    (p.scan line index before key).LeadsTo (q.scan line' index' (before ++ tokens) key')

theorem Yields.trans {p q r : Place} {tokens tokens' : List Token} (h : p.Yields tokens q)
    (h' : q.Yields tokens' r) :
    p.Yields (tokens ++ tokens') r := by
  intro before line index key hkey
  obtain ⟨line', index', key', hkey', hleads⟩ := h before line index key hkey
  obtain ⟨line'', index'', key'', hkey'', hleads'⟩ := h' (before ++ tokens) line' index' key' hkey'
  rw [List.append_assoc] at hleads'
  exact ⟨line'', index'', key'', hkey'', hleads.trans hleads'⟩

/-- A collection ends before what stands further left. -/
theorem yields_blockEnd {rest : List Char} (hbegins : BeginsToken rest) {column inner : Nat}
    (h : column < inner) (columns : List Nat) (allowed : Bool) :
    (mk rest column (inner :: columns) allowed).Yields [.blockEnd] ⟨rest, column,
      columns, allowed⟩ :=
  fun _ line index key hkey => ⟨line, index, key, hkey, Scan.leadsTo_close hbegins rfl rfl h⟩

theorem yields_space (rest : List Char) (column : Nat) (columns : List Nat) (allowed : Bool) :
    (mk (' ' :: rest) column columns allowed).Yields [] ⟨rest, column + 1, columns, allowed⟩ :=
  fun before line index key hkey =>
    ⟨line, index + 1, key, hkey, by rw [List.append_nil]; exact Scan.leadsTo_space _ rfl⟩

/-- After a line the next one begins. -/
theorem yields_margin {column : Nat} {rest text : List Char}
    (hmargin : Margin column rest text) (k : Nat) (columns : List Nat) (allowed : Bool) :
    (mk ('\n' :: text) k columns allowed).Yields [] ⟨rest, column, columns, true⟩ := by
  intro before line index key hkey
  obtain ⟨index', hleads⟩ :=
    Scan.leadsTo_margin ((mk ('\n' :: text) k columns allowed).scan line index before key) hmargin
    rfl rfl
  refine ⟨line + 1, index', key, fun k hk => ⟨(hkey k hk).1, Nat.lt_succ_of_lt (hkey k hk).2⟩, ?_⟩
  rw [List.append_nil]
  exact hleads

end Place

end ConventionalRelease.Yaml
