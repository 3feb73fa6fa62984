import ConventionalRelease.Commit.Footer
import ConventionalRelease.Proofs.Regex.Literal

/-!
# What a footer's pattern finds

Whatever the key, the pattern of a footer is a pattern (`parse_footerPattern`,
`parse_presentPattern`), and it finds what follows the key on the first line that begins with it
(`footer?_eq`).
-/

namespace ConventionalRelease

namespace Text

/-- What follows the lead on the first line that begins with it. The flag tells whether the text
starts a line. -/
def lineAfter? (lead : List Char) (start : Bool) : List Char → Option (List Char)
  | [] => if start && lead.isEmpty then some [] else none
  | c :: rest =>
    if start && lead.isPrefixOf (c :: rest) then
      some (((c :: rest).drop lead.length).takeWhile (· != '\n'))
    else lineAfter? lead (c == '\n') rest

end Text

/-- What stands between the key of a footer and its value. -/
def footerSeparator (useHash : Bool) : List Char :=
  if useHash then [' '] else [':', ' ']

/-- What the value of a footer begins with. -/
def footerMark (useHash : Bool) : List Char :=
  if useHash then ['#'] else []

/-- What the line of a footer begins with. -/
def footerLead (key : String) (useHash : Bool) : List Char :=
  key.toList ++ footerSeparator useHash ++ footerMark useHash

/-- The value of the first line of the footer, unless it is empty. -/
def footerIn? (key : String) (useHash : Bool) (text : List Char) : Option String := do
  let rest ← Text.lineAfter? (footerLead key useHash) true text
  let value := footerMark useHash ++ rest
  if value.isEmpty then none else some (String.ofList value)

namespace Regex

/-- The expression of a footer's line: the value is the group. -/
def footerLine (lead mark : List Char) : Regex :=
  sequence (.anchor .lineStart :: (lead.map literal ++
    [.group 1 (sequence (mark.map literal ++ [restOfLine])), .anchor .lineEnd]))

/-- The expression of a line that begins with a lead and goes on. -/
def presentLine (lead : List Char) : Regex :=
  sequence (.anchor .lineStart ::
    (lead.map literal ++ [.many true (.one .exceptLineFeed), .anchor .lineEnd]))

end Regex

open Regex

/-! ## The pattern is read -/

/-- The tokens of a pattern that starts with an escaped text at the start of a line. -/
theorem tokens_lineStart (key : List Char) {rest : List Char} {tokens : List Token}
    (h : Token.ofTextFrom 0 rest = .ok tokens) :
    Token.ofText ("(?m)^".toList ++ (escape key ++ rest)) =
      .ok (.flags [(.multiLine, true)] :: .start :: (key.map .char ++ tokens)) := by
  have hkey := Token.ofTextFrom_escape key h
  have hstart : Token.ofTextFrom 0 ('^' :: ([] ++ (escape key ++ rest))) = .ok _ :=
    Token.ofTextFrom_read [] rfl hkey
  exact Token.ofTextFrom_read ['?', 'm', ')'] rfl hstart

/-- Reading such a pattern gives the start of a line, the text, and what the rest is read as. -/
theorem run_lineStart (key : List Char) (tokens : List Token) :
    Builder.run {} (.flags [(.multiLine, true)] :: .start :: (key.map .char ++ tokens)) =
      Builder.run { level := {
        items := (key.map literal).reverse ++ [.anchor .lineStart]
        repeatable := true
        flags := { multiLine := true } } } tokens :=
  Builder.run_chars (b := { level := {
    items := [.anchor .lineStart], repeatable := true, flags := { multiLine := true } } })
    rfl rfl key tokens

/-- Reading such a pattern succeeds where reading the rest does. -/
theorem parse_lineStart {key rest : List Char} {tokens : List Token} {b : Builder}
    (h : Token.ofTextFrom 0 rest = .ok tokens)
    (hrun : Builder.run { level := {
      items := (key.map literal).reverse ++ [.anchor .lineStart]
      repeatable := true
      flags := { multiLine := true } } } tokens = .ok b) (houter : b.outer = []) :
    Pattern.parse ("(?m)^".toList ++ (escape key ++ rest)) = .ok ⟨b.level.regex, b.names⟩ := by
  refine bind_eq_ok.2 ⟨_, tokens_lineStart key h,
    bind_eq_ok.2 ⟨b, (run_lineStart key tokens).trans hrun, ?_⟩⟩
  rw [houter]
  rfl

/-- The parts of the expression of a footer's line, latest first. -/
def footerItems (key : List Char) (useHash : Bool) : List Regex :=
  [.anchor .lineEnd, .group 1 (sequence ((footerMark useHash).map literal ++ [restOfLine]))] ++
    ((footerSeparator useHash).map literal).reverse ++
      ((key.map literal).reverse ++ [.anchor .lineStart])

theorem sequence_footerItems (key : List Char) (useHash : Bool) :
    sequence (footerItems key useHash).reverse =
      footerLine (key ++ footerSeparator useHash) (footerMark useHash) := by
  simp [footerItems, footerLine]

/-- The pattern of a footer is read as the expression of its line. -/
theorem parse_footerPattern (key : String) (useHash : Bool) :
    Pattern.parse (footerPattern key useHash).toList =
      .ok ⟨footerLine (key.toList ++ footerSeparator useHash) (footerMark useHash), []⟩ := by
  have htext : (footerPattern key useHash).toList = "(?m)^".toList ++ (escape key.toList ++
      if useHash then [' ', '(', '#', '.', '*', ')', '$']
      else [':', ' ', '(', '.', '*', ')', '$']) := by
    cases useHash <;> simp [footerPattern]
  rw [htext, ← sequence_footerItems]
  cases useHash with
  | true =>
    exact parse_lineStart (b := { level := {
      items := footerItems key.toList true
      repeatable := true
      flags := { multiLine := true } }, count := 1 }) rfl rfl rfl
  | false =>
    exact parse_lineStart (b := { level := {
      items := footerItems key.toList false
      repeatable := true
      flags := { multiLine := true } }, count := 1 }) rfl rfl rfl

/-- The parts of the expression of a line with a value, latest first. -/
def presentItems (key : List Char) (useHash : Bool) : List Regex :=
  [.anchor .lineEnd, .many true (.one .exceptLineFeed)] ++
    ((footerSeparator useHash ++ footerMark useHash).map literal).reverse ++
      ((key.map literal).reverse ++ [.anchor .lineStart])

theorem sequence_presentItems (key : String) (useHash : Bool) :
    sequence (presentItems key.toList useHash).reverse = presentLine (footerLead key useHash) := by
  simp [presentItems, presentLine, footerLead]

/-- The pattern that tells whether a footer is there is read as the expression of a line with a
value. -/
theorem parse_presentPattern (key : String) (useHash : Bool) :
    Pattern.parse (presentPattern key useHash).toList =
      .ok ⟨presentLine (footerLead key useHash), []⟩ := by
  have htext : (presentPattern key useHash).toList = "(?m)^".toList ++ (escape key.toList ++
      if useHash then " #.+$".toList else ": .+$".toList) := by
    cases useHash <;> simp [presentPattern]
  rw [htext, ← sequence_presentItems]
  cases useHash with
  | true =>
    exact parse_lineStart (b := { level := {
      items := presentItems key.toList true
      repeatable := true
      flags := { multiLine := true } } }) rfl rfl rfl
  | false =>
    exact parse_lineStart (b := { level := {
      items := presentItems key.toList false
      repeatable := true
      flags := { multiLine := true } } }) rfl rfl rfl

/-! ## The value is found -/

/-- The ways to match the line go on after its lead, at the start of a line. -/
theorem ways_footerLine (lead mark : List Char) (w : Progress) :
    (footerLine lead mark).ways w =
      if w.before.head?.all (· == '\n') && lead.isPrefixOf w.after then
        (sequence [.group 1 (sequence (mark.map literal ++ [restOfLine])), .anchor .lineEnd]).ways
          { w with before := lead.reverse ++ w.before, after := w.after.drop lead.length }
      else [] := by
  rw [footerLine, ways_sequence_cons, ways, Anchor.holds]
  cases w.before.head?.all (· == '\n') with
  | false => simp
  | true => simp [ways_literals]

/-- The expression matches nowhere but at the start of a line that begins as it has to. -/
theorem ways_footerLine_of_not {lead mark before text : List Char} {groups : List (Nat × List Char)}
    (h : (before.head?.all (· == '\n') && (lead ++ mark).isPrefixOf text) = false) :
    (footerLine lead mark).ways ⟨before, text, groups⟩ = [] := by
  rw [ways_footerLine]
  split
  · next hlead =>
    rw [Bool.and_eq_true, List.isPrefixOf_iff_prefix] at hlead
    obtain ⟨hstart, t, rfl⟩ := hlead
    have hmark : mark.isPrefixOf t = false := by
      rw [hstart, Bool.true_and] at h
      rw [Bool.eq_false_iff, Ne, List.isPrefixOf_iff_prefix] at h ⊢
      intro hmark
      exact h ((List.prefix_append_right_inj lead).2 hmark)
    simp [ways_sequence_cons, ways, ways_literals, hmark]
  · rfl

/-- Where a line begins as it has to, the group records the mark with the rest of the line. -/
theorem head?_ways_footerLine (lead mark rest : List Char) {before : List Char}
    (hstart : before.head?.all (· == '\n') = true) :
    ∃ w, ((footerLine lead mark).ways ⟨before, lead ++ mark ++ rest, []⟩).head? = some w ∧
      w.group? 1 = some (mark ++ rest.takeWhile (· != '\n')) := by
  have hcut : rest.takeWhile (· != '\n') ++ rest.dropWhile (· != '\n') = rest :=
    List.takeWhile_append_dropWhile
  have hend : (rest.dropWhile (· != '\n')).head?.all (· == '\n') = true := by
    have hstops := Text.stops_dropWhile (p := (· != '\n')) rest
    cases hrest : rest.dropWhile (· != '\n') with
    | nil => rfl
    | cons c s => simpa [hrest] using hstops
  have hbegin : lead.isPrefixOf (lead ++ mark ++ rest) = true :=
    List.isPrefixOf_iff_prefix.2 ⟨mark ++ rest, (List.append_assoc ..).symm⟩
  have hmark : mark.isPrefixOf (mark ++ rest) = true :=
    List.isPrefixOf_iff_prefix.2 ⟨rest, rfl⟩
  obtain ⟨others, hline⟩ := ways_restOfLine ⟨mark.reverse ++ (lead.reverse ++ before), rest, []⟩
  have hvalue :
      (mark ++ rest).take (mark.length + rest.length - (rest.dropWhile (· != '\n')).length) =
      mark ++ rest.takeWhile (· != '\n') := by
    have hlength := congrArg List.length hcut
    rw [List.length_append] at hlength
    have htext : mark ++ rest =
        (mark ++ rest.takeWhile (· != '\n')) ++ rest.dropWhile (· != '\n') := by
      rw [List.append_assoc, hcut]
    rw [htext]
    exact List.take_left' (by rw [List.length_append]; omega)
  rw [ways_footerLine, hstart, hbegin]
  simpa [ways, ways_literals, hmark, Regex.sequence, hline, Anchor.holds, Progress.record, hend,
    Progress.group?, Progress.left] using hvalue

/-- The first match of the expression records what follows on the first line that begins as it has
to. -/
theorem searchFrom_footerLine (lead mark before text : List Char) :
    ((footerLine lead mark).searchFrom before text).bind (·.group? 1) =
      (Text.lineAfter? (lead ++ mark) (before.head?.all (· == '\n')) text).map (mark ++ ·) := by
  induction text generalizing before with
  | nil =>
    rw [searchFrom, Text.lineAfter?]
    split
    · next h =>
      rw [Bool.and_eq_true, List.isEmpty_iff, List.append_eq_nil_iff] at h
      obtain ⟨hstart, rfl, rfl⟩ := h
      obtain ⟨w, hw, hvalue⟩ := head?_ways_footerLine [] [] [] hstart
      exact (congrArg (·.bind (·.group? 1)) hw).trans hvalue
    · next h =>
      have hempty : (lead ++ mark).isPrefixOf [] = (lead ++ mark).isEmpty := by
        cases lead ++ mark <;> rfl
      rw [ways_footerLine_of_not (by rw [hempty]; exact Bool.eq_false_iff.2 h)]
      rfl
  | cons c rest ih =>
    rw [searchFrom, Text.lineAfter?]
    cases h : before.head?.all (· == '\n') && (lead ++ mark).isPrefixOf (c :: rest) with
    | true =>
      obtain ⟨hstart, hlead⟩ := Bool.and_eq_true_iff.1 h
      obtain ⟨t, ht⟩ := List.isPrefixOf_iff_prefix.1 hlead
      obtain ⟨w, hw, hvalue⟩ := head?_ways_footerLine lead mark t hstart
      rw [← ht, hw, if_pos rfl, List.drop_left]
      exact hvalue
    | false =>
      rw [ways_footerLine_of_not h]
      exact ih (c :: before)

/-- The pattern of a footer finds the value of its first line. -/
theorem footerValue?_eq {key : String} {useHash : Bool} {p : Pattern}
    (h : Pattern.parse (footerPattern key useHash).toList = .ok p) (text : String) :
    footerValue? p text = footerIn? key useHash text.toList := by
  rw [parse_footerPattern] at h
  cases h
  have hsearch :=
    searchFrom_footerLine (key.toList ++ footerSeparator useHash) (footerMark useHash)
      [] text.toList
  have hvalue : ∀ found : Option Progress,
      (do let w ← found
          let value ← w.group? 1
          if value.isEmpty then none else some (String.ofList value)) =
        (found.bind (·.group? 1)).bind fun value =>
          if value.isEmpty then none else some (String.ofList value) := by
    intro found
    cases found <;> rfl
  rw [footerValue?, hvalue, Pattern.search, search, hsearch, Option.bind_map]
  rfl

/-- The value of a footer, found by its key. -/
theorem footer?_eq (key : String) (useHash : Bool) (text : String) :
    footer? key useHash text = footerIn? key useHash text.toList := by
  rw [footer?]
  split
  · next p h => exact footerValue?_eq h text
  · next e h =>
    rw [parse_footerPattern] at h
    cases h

/-! ## Empty lines -/

namespace Text

variable {lead : List Char}

theorem lineAfter?_nil (hne : lead ≠ []) (start : Bool) : lineAfter? lead start [] = none := by
  rw [lineAfter?, List.isEmpty_eq_false_iff.2 hne, Bool.and_false, if_neg Bool.false_ne_true]

/-- An empty line before a text changes nothing. -/
theorem lineAfter?_lineFeed_cons (hne : lead ≠ []) (hfirst : lead.head? ≠ some '\n')
    (s : List Char) :
    lineAfter? lead true ('\n' :: s) = lineAfter? lead true s := by
  have hbegin : lead.isPrefixOf ('\n' :: s) = false := by
    obtain ⟨c, rest, rfl⟩ := List.exists_cons_of_ne_nil hne
    rw [List.isPrefixOf_cons_cons, beq_false_of_ne fun e => hfirst (congrArg some e),
      Bool.false_and]
  rw [lineAfter?, hbegin]
  rfl

theorem takeWhile_append_lineFeed (s : List Char) :
    (s ++ ['\n']).takeWhile (· != '\n') = s.takeWhile (· != '\n') := by
  induction s with
  | nil => rfl
  | cons c s ih =>
    rw [List.cons_append, List.takeWhile_cons, List.takeWhile_cons, ih]

/-- A line feed at the end of a text changes nothing. -/
theorem lineAfter?_append_lineFeed (hne : lead ≠ []) (hlast : lead.getLast? ≠ some '\n')
    (start : Bool) (s : List Char) :
    lineAfter? lead start (s ++ ['\n']) = lineAfter? lead start s := by
  have hbegin : ∀ t, lead.isPrefixOf (t ++ ['\n']) = lead.isPrefixOf t := fun t => by
    rw [Bool.eq_iff_iff, List.isPrefixOf_iff_prefix, List.isPrefixOf_iff_prefix,
      List.prefix_concat_iff]
    constructor
    · rintro (rfl | h)
      · exact absurd (List.getLast?_concat ..) hlast
      · exact h
    · exact .inr
  induction s generalizing start with
  | nil =>
    have hnil : lead.isPrefixOf ['\n'] = false := by
      obtain ⟨c, rest, rfl⟩ := List.exists_cons_of_ne_nil hne
      exact hbegin []
    rw [List.nil_append, lineAfter?_nil hne, lineAfter?, hnil, Bool.and_false,
      if_neg Bool.false_ne_true, lineAfter?_nil hne]
  | cons c s ih =>
    have hcons := hbegin (c :: s)
    rw [List.cons_append] at hcons ⊢
    rw [lineAfter?, lineAfter?, hcons, ih]
    split
    · next h =>
      rw [Bool.and_eq_true, List.isPrefixOf_iff_prefix] at h
      rw [← List.cons_append, List.drop_append_of_le_length h.2.length_le,
        takeWhile_append_lineFeed]
    · rfl

end Text

theorem footerLead_ne_nil (key : String) (useHash : Bool) : footerLead key useHash ≠ [] := by
  cases useHash <;> simp [footerLead, footerSeparator, footerMark]

theorem getLast?_footerLead (key : String) (useHash : Bool) :
    (footerLead key useHash).getLast? ≠ some '\n' := by
  cases useHash <;> simp [footerLead, footerSeparator, footerMark]

theorem head?_footerLead {key : String} (h : key.toList.head? ≠ some '\n') (useHash : Bool) :
    (footerLead key useHash).head? ≠ some '\n' := by
  cases hkey : key.toList with
  | nil => cases useHash <;> simp [footerLead, footerSeparator, footerMark, hkey]
  | cons c rest =>
    rw [hkey] at h
    simpa [footerLead, hkey] using h

/-- A line feed at the end of a text changes no footer. -/
theorem footerIn?_append_lineFeed (key : String) (useHash : Bool) (s : List Char) :
    footerIn? key useHash (s ++ ['\n']) = footerIn? key useHash s := by
  rw [footerIn?, Text.lineAfter?_append_lineFeed (footerLead_ne_nil key useHash)
    (getLast?_footerLead key useHash)]
  rfl

/-- Empty lines around a text change no footer whose key is on a line. -/
theorem footerIn?_lineFeeds {key : String} (h : key.toList.head? ≠ some '\n')
    (useHash : Bool) (m n : Nat) (s : List Char) :
    footerIn? key useHash (List.replicate m '\n' ++ (s ++ List.replicate n '\n')) =
      footerIn? key useHash s := by
  induction m with
  | zero =>
    rw [List.replicate_zero, List.nil_append]
    induction n with
    | zero => simp
    | succ n ih => rw [List.replicate_succ', ← List.append_assoc, footerIn?_append_lineFeed, ih]
  | succ m ih =>
    rw [List.replicate_succ, List.cons_append, footerIn?,
      Text.lineAfter?_lineFeed_cons (footerLead_ne_nil key useHash) (head?_footerLead h useHash)]
    exact ih

end ConventionalRelease
