import ConventionalRelease.Proofs.Yaml.Cursor

/-!
# Blocks of lines

A text that is written as a block of lines is read line by line: the breaks before a line, its
indentation and the line itself (`blockLines?_go`). What becomes of the breaks at the end follows
from the text (`Chomping.of`), and the header says it, so the block is read as the text
(`block?_literal`).
-/

namespace ConventionalRelease.Yaml

/-! ## The breaks at the end -/

namespace Chomping

/-- How the breaks at the end of a text are kept. -/
def of (s : List Char) : Chomping :=
  match s.reverse with
  | [] => strip
  | c :: before =>
    if !isBreak c then strip
    else if before.head?.all isBreak then keep
    else clip

/-- The mark in the header of a block. -/
def mark : Chomping → List Char
  | strip => ['-']
  | clip => []
  | keep => ['+']

/-- Only the end of a text counts. -/
theorem of_append {c : Char} {s : List Char} (hc : isBreak c = false) (front : List Char) :
    Chomping.of (front ++ c :: s) = Chomping.of (c :: s) := by
  have hreverse : (front ++ c :: s).reverse = s.reverse ++ c :: front.reverse := by simp
  rw [Chomping.of, Chomping.of, hreverse, List.reverse_cons]
  cases s.reverse with
  | nil => simp [hc]
  | cons d before =>
    cases before with
    | nil => rfl
    | cons e before => rfl

/-- No break at the end is kept where there is none. -/
theorem of_line {line : List Char} (hne : line ≠ []) (hline : ∀ c ∈ line, isBreak c = false) :
    Chomping.of line = strip := by
  obtain ⟨front, c, rfl⟩ := (List.eq_nil_or_concat line).resolve_left hne
  rw [List.concat_eq_append] at hline ⊢
  simp [Chomping.of, hline c (by simp)]

theorem of_concat {c b : Char} (hc : isBreak c = false) (hb : isBreak b = true)
    (front : List Char) :
    Chomping.of (front ++ [c, b]) = clip := by
  simp [Chomping.of, hc, hb]

/-- All breaks at the end are kept where there are several, or nothing else. -/
theorem of_breaks {front breaks : List Char} (hbreaks : ∀ b ∈ breaks, isBreak b = true)
    (h : 2 ≤ breaks.length ∨ front = [] ∧ breaks ≠ []) : Chomping.of (front ++ breaks) = keep := by
  have hmem : ∀ b ∈ breaks.reverse, isBreak b = true :=
    fun b hb => hbreaks b (List.mem_reverse.1 hb)
  rw [← List.length_reverse, ← List.reverse_ne_nil_iff] at h
  rw [Chomping.of, List.reverse_append]
  generalize breaks.reverse = reversed at h hmem
  match reversed, h with
  | [], h => simp at h
  | [b], h =>
    obtain rfl : front = [] := by simpa using h
    simp [hmem b (by simp)]
  | b :: b' :: more, _ => simp [hmem b (by simp), hmem b' (by simp)]

end Chomping

theorem literalHeader_eq (s : List Char) : literalHeader s =
    '|' :: (if s.head?.any (fun c => c = ' ' || isBreak c) then ['2'] else []) ++
      (Chomping.of s).mark := by
  rw [literalHeader, Chomping.of]
  cases s.reverse with
  | nil => rfl
  | cons c before =>
    by_cases hc : isBreak c = true
    · by_cases hbefore : before.head?.all isBreak = true <;> simp [hc, hbefore, Chomping.mark]
    · simp [hc, Chomping.mark]

/-- The marks of a header are read up to the end of its line. -/
theorem read_header (hint : Bool) (chomping : Chomping) (rest : List Char) (l k i : Nat) :
    BlockHeader.read ⟨(if hint then ['2'] else []) ++ chomping.mark ++ '\n' :: rest, l, k, i⟩ =
      (⟨chomping, if hint then some 2 else none⟩, ⟨'\n' :: rest, l,
        k + ((if hint then ['2'] else []) ++ chomping.mark).length,
        i + ((if hint then ['2'] else []) ++ chomping.mark).length⟩) := by
  cases hint <;> cases chomping <;> rfl

/-! ## Line by line -/

section Written

variable {indent : Nat}

theorem literalLines_go_breaks {breaks : List Char} (h : ∀ b ∈ breaks, isBreak b = true)
    (s : List Char) :
    literalLines.go indent true (breaks ++ s) = breaks ++ literalLines.go indent true s := by
  induction breaks with
  | nil => rfl
  | cons b breaks ih =>
    obtain ⟨hb, hbreaks⟩ := List.forall_mem_cons.1 h
    rw [List.cons_append, literalLines.go, if_pos hb, ih hbreaks, List.cons_append]

/-- After a line the breaks are written as they stand. -/
theorem literalLines_go_false {b : Char} {breaks : List Char} (hb : isBreak b = true)
    (hbreaks : ∀ b ∈ breaks, isBreak b = true) (s : List Char) :
    literalLines.go indent false (b :: breaks ++ s) =
      b :: (breaks ++ literalLines.go indent true s) := by
  rw [List.cons_append, literalLines.go, if_pos hb, literalLines_go_breaks hbreaks]

/-- A line that is not empty begins with its indentation. -/
theorem literalLines_go_true {c : Char} (h : isBreak c = false) (s : List Char) :
    literalLines.go indent true (c :: s) =
      spaces indent ++ literalLines.go indent false (c :: s) := by
  simp [literalLines.go, h]

theorem literalLines_go_cons {c : Char} (h : isBreak c = false) (s : List Char) :
    literalLines.go indent false (c :: s) = c :: literalLines.go indent false s := by
  simp [literalLines.go, h]

theorem literalLines_go_line {line : List Char} (h : ∀ c ∈ line, isBreak c = false)
    (s : List Char) :
    literalLines.go indent false (line ++ s) = line ++ literalLines.go indent false s := by
  induction line with
  | nil => rfl
  | cons c line ih =>
    obtain ⟨hc, hline⟩ := List.forall_mem_cons.1 h
    rw [List.cons_append, literalLines_go_cons hc, ih hline, List.cons_append]

theorem length_le_literalLines_go (broken : Bool) (s : List Char) :
    s.length ≤ (literalLines.go indent broken s).length := by
  induction s generalizing broken with
  | nil => exact Nat.zero_le _
  | cons c s ih =>
    rw [literalLines.go]
    split
    · simpa using ih true
    · have hlength := ih false
      simp only [List.length_append, List.length_cons]
      omega

end Written

/-- The indentation is skipped, up to the column of the block. -/
theorem skipIndentation_spaces {indent n : Nat} (hn : n ≤ indent) {rest : List Char}
    (hrest : n < indent → rest.head? ≠ some ' ') (l i : Nat) :
    skipIndentation indent ⟨spaces n ++ rest, l, 0, i⟩ = ⟨rest, l, n, i + n⟩ := by
  have hstops : Text.stops (· = ' ') (rest.take (indent - n)) = true := by
    cases rest with
    | nil => simp
    | cons c rest =>
      cases hlt : indent - n with
      | zero => rfl
      | succ m =>
        have hc : c ≠ ' ' := fun hc => hrest (by omega) (congrArg some hc)
        simpa using hc
  have htake : ((spaces n ++ rest).take (indent - 0)).takeWhile (· = ' ') = spaces n := by
    rw [List.take_append, length_spaces, List.take_of_length_le (by simpa using hn)]
    exact Text.takeWhile_append_of_stops (fun c hc => by
      simpa using (List.mem_replicate.1 hc).2) hstops
  rw [skipIndentation, htake, Cursor.past_line fun c => isBreak_of_mem_spaces, length_spaces,
    Nat.zero_add]

/-- Empty lines are read, and the indentation of the line after them. -/
theorem emptyLines?_eq {indent n : Nat} {breaks rest : List Char}
    (hbreaks : ∀ b ∈ breaks, isBreak b = true) (hn : n ≤ indent)
    (hrest : ∀ c, rest.head? = some c → isBreak c = false ∧ (n < indent → isGap c = false))
    {fuel : Nat} (hfuel : breaks.length < fuel) (before : List Char) (l i : Nat) :
    ∃ i', emptyLines? indent fuel before ⟨breaks ++ (spaces n ++ rest), l, 0, i⟩ =
      some (before ++ breaks, ⟨rest, l + breaks.length, n, i'⟩) := by
  obtain ⟨fuel, rfl⟩ := Nat.exists_eq_succ_of_ne_zero (Nat.ne_zero_of_lt hfuel)
  induction breaks generalizing fuel before l i with
  | nil =>
    have hspace : n < indent → rest.head? ≠ some ' ' :=
      fun hlt h => absurd ((hrest _ h).2 hlt) (by decide)
    refine ⟨i + n, ?_⟩
    rw [List.nil_append, emptyLines?, skipIndentation_spaces hn hspace]
    cases rest with
    | nil => simp
    | cons c rest =>
      obtain ⟨hbreak, hgap⟩ := hrest c rfl
      have htab : ¬(c = '\t' ∧ n < indent) := by
        rintro ⟨rfl, hlt⟩
        exact absurd (hgap hlt) (by decide)
      simp [hbreak, htab]
  | cons b breaks ih =>
    obtain ⟨hb, hbreaks⟩ := List.forall_mem_cons.1 hbreaks
    have hspace : b ≠ ' ' := by
      rintro rfl
      cases hb
    have hstay : skipIndentation indent ⟨b :: (breaks ++ (spaces n ++ rest)), l, 0, i⟩ =
        ⟨b :: (breaks ++ (spaces n ++ rest)), l, 0, i⟩ := by
      have hhead : (b :: (breaks ++ (spaces n ++ rest))).head? ≠ some ' ' :=
        fun h => hspace (Option.some.inj h)
      exact skipIndentation_spaces (Nat.zero_le indent) (fun _ => hhead) l i
    have htab : b ≠ '\t' := by
      rintro rfl
      cases hb
    obtain ⟨fuel, rfl⟩ :=
      Nat.exists_eq_succ_of_ne_zero (Nat.ne_zero_of_lt (Nat.lt_of_succ_lt_succ hfuel))
    obtain ⟨i', hread⟩ := ih hbreaks (before ++ [b]) (l + 1) (i + 1) fuel (by simpa using hfuel)
    refine ⟨i', ?_⟩
    rw [List.cons_append, emptyLines?, hstay]
    simp only [htab, hb, Cursor.skip_break hb, decide_false, Bool.false_and, Bool.false_eq_true,
      if_false, if_true]
    rw [hread, List.append_assoc, List.length_cons, Nat.add_right_comm, Nat.add_assoc]
    rfl

/-- The first line that is not empty says how far the block is indented. -/
theorem firstLines?_eq {n : Nat} {c : Char} (hc : isGap c = false) (rest : List Char)
    (fuel l i : Nat) :
    firstLines? (fuel + 1) [] 0 ⟨spaces n ++ c :: rest, l, 0, i⟩ =
      some ([], n, ⟨c :: rest, l, n, i + n⟩) := by
  have hspace : Text.stops (· = ' ') (c :: rest) = true := by
    rw [Text.stops_cons, Bool.not_eq_true', decide_eq_false_iff_not]
    rintro rfl
    cases hc
  have htab : c ≠ '\t' := by
    rintro rfl
    cases hc
  have hskip :
      (Cursor.mk (spaces n ++ c :: rest) l 0 i).skipWhile (· = ' ') = ⟨c :: rest, l, n, i + n⟩ := by
    rw [Cursor.skipWhile,
      Cursor.span_eq rfl (fun d hd => by simpa using (List.mem_replicate.1 hd).2) hspace,
      Cursor.past_line fun d => isBreak_of_mem_spaces, length_spaces, Nat.zero_add]
  rw [firstLines?, hskip]
  simp [htab, isBreak_of_not_isGap hc]

/-- A line is read with the empty lines after it. -/
theorem blockLines?_line {indent n : Nat} {line breaks rest : List Char} {b : Char}
    (hline : ∀ c ∈ line, isBreak c = false) (hb : isBreak b = true)
    (hbreaks : ∀ b ∈ breaks, isBreak b = true) (hn : n ≤ indent)
    (hrest : ∀ c, rest.head? = some c → isBreak c = false ∧ (n < indent → isGap c = false))
    (block : BlockText) (fuel l i : Nat) :
    ∃ block' i', blockLines? false indent (fuel + 1) block
      ⟨line ++ b :: (breaks ++ (spaces n ++ rest)), l, indent, i⟩ =
        blockLines? false indent fuel block' ⟨rest, l + 1 + breaks.length, n, i'⟩ ∧
      block'.text = block.text ++ (block.lastBreak ++ block.breaks) ++ line ∧
        block'.lastBreak = [b] ∧
      block'.breaks = breaks := by
  have hspan :
      (Cursor.mk (line ++ b :: (breaks ++ (spaces n ++ rest))) l indent i).span (!isBreak ·) =
      (line, ⟨b :: (breaks ++ (spaces n ++ rest)), l, indent + line.length, i + line.length⟩) := by
    rw [Cursor.span_eq rfl (fun c hc => by simpa using hline c hc) (by simp [hb]),
      Cursor.past_line hline]
  have hsome : (line ++ b :: (breaks ++ (spaces n ++ rest))).isEmpty = false := by simp
  have hlength : breaks.length < (line ++ b :: (breaks ++ (spaces n ++ rest))).length + 1 := by
    rw [List.length_append, List.length_cons, List.length_append]
    omega
  have hskip :
      (Cursor.mk (b :: (breaks ++ (spaces n ++ rest))) l (indent + line.length)
        (i + line.length)).past [b] =
      ⟨breaks ++ (spaces n ++ rest), l + 1, 0, i + line.length + 1⟩ := Cursor.skip_break hb _ _ _ _
  obtain ⟨i', hread⟩ := emptyLines?_eq hbreaks hn hrest hlength [] (l + 1) (i + line.length + 1)
  refine ⟨{ block.add false line [b] with breaks }, i', ?_, rfl, rfl, rfl⟩
  rw [blockLines?, hsome, hspan]
  simp only [decide_true, Bool.not_false, Bool.and_true, if_true, List.take_succ_cons,
    List.take_zero, hskip, hread]
  rfl

theorem blockLines?_end {indent : Nat} {c : Cursor} (h : c.column ≠ indent) (block : BlockText)
    (fuel : Nat) :
    blockLines? false indent (fuel + 1) block c = some (block, c) := by
  simp [blockLines?, h]

/-- The break after the last line and the empty lines after it are kept as the header says. -/
theorem BlockText.finish_breaks {block : BlockText} {front line breaks : List Char} {b : Char}
    (hne : line ≠ []) (hline : ∀ c ∈ line, isBreak c = false) (hb : isBreak b = true)
    (hbreaks : ∀ b ∈ breaks, isBreak b = true) (htext : block.text = front ++ line)
    (hbreak : block.lastBreak = [b]) (hafter : block.breaks = breaks) :
    block.finish (Chomping.of (line ++ b :: breaks)) = front ++ (line ++ b :: breaks) := by
  cases breaks with
  | nil =>
    obtain ⟨before, c, rfl⟩ := (List.eq_nil_or_concat line).resolve_left hne
    have hclip : Chomping.of (before.concat c ++ [b]) = .clip := by
      rw [List.concat_eq_append, List.append_assoc]
      exact Chomping.of_concat (hline c (by simp)) hb before
    rw [hclip, finish, htext, hbreak, List.append_assoc]
  | cons b' breaks =>
    have hall : ∀ d ∈ b :: b' :: breaks, isBreak d = true := List.forall_mem_cons.2 ⟨hb, hbreaks⟩
    rw [Chomping.of_breaks hall (.inl (by simp)), finish, htext, hbreak, hafter]
    simp

section Lines

variable {indent column : Nat} {rest text : List Char}

/-- The last line is read with the breaks after it, up to a line that is indented less. -/
theorem blockLines?_last (hmargin : Margin column rest text) (hcolumn : column < indent)
    {line breaks : List Char} (hne : line ≠ []) (hline : ∀ c ∈ line, isBreak c = false)
    (hbreaks : ∀ b ∈ breaks, isBreak b = true) (block : BlockText) (fuel l i : Nat) :
    ∃ block' l' i', blockLines? false indent (fuel + 2) block
          ⟨literalLines.go indent false (line ++ breaks) ++ text, l, indent, i⟩ =
        some (block', ⟨rest, l', column, i'⟩) ∧ l < l' ∧
      block'.finish (Chomping.of (line ++ breaks)) =
        block.text ++ (block.lastBreak ++ block.breaks) ++ (line ++ breaks) := by
  rw [literalLines_go_line hline, hmargin.text_eq, List.append_assoc]
  cases breaks with
  | nil =>
    -- the text ends without a break, and one is written
    obtain ⟨block', i', hread, htext, -, -⟩ := blockLines?_line hline (rfl : isBreak '\n' = true)
      (nofun : ∀ b ∈ ([] : List Char), isBreak b = true) (Nat.le_of_lt hcolumn) hmargin.head_spec
        block (fuel + 1) l i
    refine ⟨block', l + 1, i', hread.trans (blockLines?_end (Nat.ne_of_lt hcolumn) block' fuel),
      Nat.lt_succ_self l, ?_⟩
    rw [List.append_nil, Chomping.of_line hne hline]
    exact htext
  | cons b breaks =>
    obtain ⟨hb, hbreaks⟩ := List.forall_mem_cons.1 hbreaks
    obtain ⟨block', i', hread, htext, hbreak, hafter⟩ :=
      blockLines?_line hline hb hbreaks (Nat.le_of_lt hcolumn)
      hmargin.head_spec block (fuel + 1) l i
    have hwritten : literalLines.go indent false (b :: breaks) = b :: breaks := by
      simpa [literalLines.go] using literalLines_go_false hb hbreaks []
    refine ⟨block', l + 1 + breaks.length, i', ?_, by
      omega, BlockText.finish_breaks hne hline hb hbreaks htext hbreak hafter⟩
    rw [hwritten]
    simpa using hread.trans (blockLines?_end (Nat.ne_of_lt hcolumn) block' fuel)

/-- What was written for the lines of a text is read as the text, up to a line that is indented
less. -/
theorem blockLines?_go (hmargin : Margin column rest text) (hcolumn : column < indent) {c : Char}
    {s : List Char} (hc : isBreak c = false) (block : BlockText) (l i : Nat) {fuel : Nat}
    (hfuel : s.length + 1 < fuel) :
    ∃ block' l' i', blockLines? false indent fuel block
      ⟨literalLines.go indent false (c :: s) ++ text, l, indent, i⟩ =
        some (block', ⟨rest, l', column, i'⟩) ∧ l < l' ∧
      block'.finish (Chomping.of (c :: s)) = block.text ++ (block.lastBreak ++ block.breaks) ++
        c :: s := by
  obtain ⟨fuel, rfl⟩ := Nat.exists_eq_succ_of_ne_zero (Nat.ne_zero_of_lt hfuel)
  induction fuel generalizing c s block l i with
  | zero => omega
  | succ fuel ih =>
    obtain ⟨line, tail, rfl, hline, htail⟩ := Text.exists_eq_append_of_stops (!isBreak ·) s
    obtain ⟨breaks, next, rfl, hbreaks, hnext⟩ := Text.exists_eq_append_of_stops isBreak tail
    have hline' : ∀ d ∈ c :: line, isBreak d = false :=
      List.forall_mem_cons.2 ⟨hc, fun d hd => by simpa using hline d hd⟩
    cases next with
    | nil =>
      rw [List.append_nil]
      exact blockLines?_last hmargin hcolumn (List.cons_ne_nil c line) hline' hbreaks block fuel l i
    | cons d next =>
      have hd : isBreak d = false := by simpa using hnext
      cases breaks with
      | nil => simp [hd] at htail
      | cons b breaks =>
        obtain ⟨hb, hbreaks⟩ := List.forall_mem_cons.1 hbreaks
        have hhead : ∀ e, (literalLines.go indent false (d :: next) ++ text).head? = some e →
            isBreak e = false ∧ (indent < indent → isGap e = false) := by
          intro e he
          rw [literalLines_go_cons hd] at he
          cases he
          exact ⟨hd, fun h => absurd h (Nat.lt_irrefl indent)⟩
        obtain ⟨block', i', hread, htext, hbreak, hafter⟩ :=
          blockLines?_line hline' hb hbreaks (Nat.le_refl indent) hhead
          block (fuel + 1) l i
        have hlength : next.length + 1 < fuel + 1 := by
          rw [List.length_append, List.length_append, List.length_cons, List.length_cons] at hfuel
          omega
        obtain ⟨block'', l', i'', hread', hl, hfinish⟩ :=
          ih hd block' (l + 1 + breaks.length) i' hlength
        have hwritten : literalLines.go indent false (c :: (line ++ (b :: breaks ++ d :: next))) =
            c :: line ++ b ::
              (breaks ++ (spaces indent ++ literalLines.go indent false (d :: next))) := by
          rw [← List.cons_append, literalLines_go_line hline', literalLines_go_false hb hbreaks,
            literalLines_go_true hd]
        have hchomping := Chomping.of_append (s := next) hd (c :: line ++ b :: breaks)
        refine ⟨block'', l', i'', ?_, by omega, ?_⟩
        · rw [hwritten]
          simpa using hread.trans hread'
        · rw [List.append_assoc] at hchomping
          rw [← List.cons_append, hchomping, hfinish, htext, hbreak, hafter]
          simp

end Lines

/-- After its header a block goes on with empty lines and the indentation of its first line, then
with its lines. -/
theorem block?_of_lines {s more breaks : List Char} {parent l i : Nat} {c : Cursor}
    {found : BlockText × Cursor} (k : Nat)
    (hopen : if s.head?.any (fun c => c = ' ' || isBreak c) then
        emptyLines? (parent + 2) (more.length + 1) [] ⟨more, l + 1, 0,
          i + (literalHeader s).length + 1⟩ = some (breaks, c)
      else
        firstLines? (more.length + 1) [] 0 ⟨more, l + 1, 0, i + (literalHeader s).length + 1⟩ =
          some (breaks, parent + 2, c))
    (hlines : blockLines? false (parent + 2) (more.length + 1) { breaks } c = some found) :
    block? false (some parent) ⟨literalHeader s ++ '\n' :: more, l, k, i⟩ =
      some ⟨found.1.finish (Chomping.of s), found.2, false⟩ := by
  generalize hhint : s.head?.any (fun c => c = ' ' || isBreak c) = hint at hopen
  have hheader := read_header hint (Chomping.of s) more l (k + 1) (i + 1)
  have hlength : i + (literalHeader s).length + 1 =
      i + 1 + ((if hint then ['2'] else []) ++ (Chomping.of s).mark).length + 1 := by
    rw [literalHeader_eq, hhint, List.cons_append, List.length_cons]
    omega
  have hgap (k i : Nat) :
      (Cursor.mk ('\n' :: more) l k i).skipWhile isSpace = ⟨'\n' :: more, l, k, i⟩ := rfl
  have hskip (k i : Nat) : (Cursor.mk ('\n' :: more) l k i).skip = ⟨more, l + 1, 0, i + 1⟩ :=
    Cursor.skip_break rfl _ _ _ _
  rw [hlength] at hopen
  rw [literalHeader_eq, hhint, block?, List.cons_append, List.cons_append,
    Cursor.skip_char rfl, hheader]
  generalize ((if hint then ['2'] else []) ++ (Chomping.of s).mark).length = n at hopen
  cases hint <;> simp only [Bool.false_eq_true, if_false, if_true] at hopen <;>
    simp [hgap, hskip, hopen, hlines, isBreak]

/-- The header leads to the first line that is not empty: it says how far the block is indented
where that line does not show it. -/
theorem exists_first_line (parent : Nat) {breaks : List Char} {d : Char}
    (hbreaks : ∀ b ∈ breaks, isBreak b = true) (hd : isBreak d = false)
    (hspace : isGap d = true → d = ' ') (next more : List Char) (l i : Nat) :
    ∃ l' i', l ≤ l' ∧
      if (breaks ++ d :: next).head?.any (fun c => c = ' ' || isBreak c) then
        emptyLines? (parent + 2) ((breaks ++ (spaces (parent + 2) ++ d :: more)).length + 1) []
            ⟨breaks ++ (spaces (parent + 2) ++ d :: more), l, 0, i⟩ =
          some (breaks, ⟨d :: more, l', parent + 2, i'⟩)
      else
        firstLines? ((breaks ++ (spaces (parent + 2) ++ d :: more)).length + 1) [] 0
            ⟨breaks ++ (spaces (parent + 2) ++ d :: more), l, 0, i⟩ =
          some (breaks, parent + 2, ⟨d :: more, l', parent + 2, i'⟩) := by
  split
  · have hhead : ∀ e, (d :: more).head? = some e → isBreak e = false ∧
        (parent + 2 < parent + 2 → isGap e = false) := by
      rintro e ⟨⟩
      exact ⟨hd, fun h => absurd h (Nat.lt_irrefl _)⟩
    obtain ⟨i', hread⟩ := emptyLines?_eq hbreaks (Nat.le_refl (parent + 2)) hhead
      (Nat.lt_succ_of_le (List.sublist_append_left breaks _).length_le) [] l i
    exact ⟨l + breaks.length, i', Nat.le_add_right l _, hread⟩
  · next hhint =>
    cases breaks with
    | cons b breaks => exact absurd (by simp [hbreaks b List.mem_cons_self]) hhint
    | nil =>
      have hgap : isGap d = false := by
        refine Bool.eq_false_iff.2 fun hgap => hhint ?_
        rw [hspace hgap]
        rfl
      exact ⟨l, _, Nat.le_refl l, firstLines?_eq hgap _ _ _ _⟩

section Literal

variable {column parent : Nat} {rest text breaks : List Char}

/-- A text that is nothing but breaks is read as a block without lines, which keeps them all. -/
theorem block?_breaks (hne : breaks ≠ []) (hbreaks : ∀ b ∈ breaks, isBreak b = true)
    (hmargin : Margin column rest text) (hcolumn : column ≤ parent) (l k i : Nat) :
    ∃ i', block? false (some parent) ⟨literalHeader breaks ++ '\n' :: (breaks ++ text), l, k, i⟩ =
      some ⟨breaks, ⟨rest, l + 1 + breaks.length, column, i'⟩, false⟩ := by
  obtain ⟨b, more, rfl⟩ := List.exists_cons_of_ne_nil hne
  have hhint : (b :: more).head?.any (fun c => c = ' ' || isBreak c) = true := by
    simp [hbreaks b List.mem_cons_self]
  have hfuel : (b :: more).length < (b :: more ++ text).length + 1 := by
    rw [List.length_append]
    omega
  rw [hmargin.text_eq] at hfuel ⊢
  obtain ⟨i', hread⟩ := emptyLines?_eq hbreaks
    (by omega : column ≤ parent + 2) hmargin.head_spec hfuel [] (l + 1)
    (i + (literalHeader (b :: more)).length + 1)
  have hends := blockLines?_end (c := ⟨rest, l + 1 + (b :: more).length, column, i'⟩)
    (by omega : column ≠ parent + 2)
    { breaks := b :: more } (b :: more ++ (spaces column ++ rest)).length
  refine ⟨i', ?_⟩
  rw [block?_of_lines k (by rw [if_pos hhint]; exact hread) hends, ← List.nil_append (b :: more),
    Chomping.of_breaks hbreaks (.inr ⟨rfl, hne⟩)]
  rfl

/-- A text that begins with breaks and a line is read as the text. -/
theorem block?_lines (hbreaks : ∀ b ∈ breaks, isBreak b = true) {d : Char} (hd : isBreak d = false)
    (hspace : isGap d = true → d = ' ') (next : List Char) (hmargin : Margin column rest text)
    (hcolumn : column ≤ parent) (l k i : Nat) :
    ∃ l' i', block? false (some parent) ⟨literalHeader (breaks ++ d :: next) ++
        '\n' :: (breaks ++ literalLines.go (parent + 2) true (d :: next) ++ text), l, k, i⟩ =
      some ⟨breaks ++ d :: next, ⟨rest, l', column, i'⟩, false⟩ ∧ l < l' := by
  have hlength : next.length < (literalLines.go (parent + 2) false (d :: next)).length :=
    length_le_literalLines_go false (d :: next)
  have htext : breaks ++ literalLines.go (parent + 2) true (d :: next) ++ text =
      breaks ++ (spaces (parent + 2) ++
        (literalLines.go (parent + 2) false (d :: next) ++ text)) := by
    rw [literalLines_go_true hd]
    simp
  have hfuel : next.length + 1 <
      (breaks ++ (spaces (parent + 2) ++
        (literalLines.go (parent + 2) false (d :: next) ++ text))).length + 1 := by
    rw [List.length_append, List.length_append, List.length_append]
    omega
  obtain ⟨l', i', hl, hopen⟩ := exists_first_line parent hbreaks hd hspace next
    (literalLines.go (parent + 2) false next ++ text) (l + 1)
      (i + (literalHeader (breaks ++ d :: next)).length + 1)
  rw [← List.cons_append, ← literalLines_go_cons hd] at hopen
  obtain ⟨block, l'', i'', hread, hl', hfinish⟩ :=
    blockLines?_go hmargin (by omega : column < parent + 2) hd { breaks := breaks } l' i' hfuel
  refine ⟨l'', i'', ?_, by omega⟩
  rw [htext, block?_of_lines k hopen hread, Chomping.of_append hd, hfinish]
  simp

/-- A text that was written as a block of lines is read as the text, up to a line that is indented
less. -/
theorem block?_literal {s : List Char} (h : allowsLiteral s = true)
    (hmargin : Margin column rest text) (hcolumn : column ≤ parent) (l k i : Nat) :
    ∃ l' i', block? false (some parent)
      ⟨literalHeader s ++ '\n' :: (literalLines (parent + 2) s ++ text), l, k, i⟩ =
      some ⟨s, ⟨rest, l', column, i'⟩, false⟩ ∧ l < l' := by
  simp only [allowsLiteral, Bool.not_eq_true', Bool.or_eq_false_iff, List.any_eq_false] at h
  obtain ⟨⟨⟨hempty, -⟩, -⟩, hwritable⟩ := h
  obtain ⟨breaks, next, rfl, hbreaks, hnext⟩ := Text.exists_eq_append_of_stops isBreak s
  rw [literalLines, literalLines_go_breaks hbreaks]
  cases next with
  | nil =>
    rw [List.append_nil] at hempty ⊢
    obtain ⟨i', hread⟩ := block?_breaks (by simpa using hempty) hbreaks hmargin hcolumn l k i
    refine ⟨l + 1 + breaks.length, i', ?_, by omega⟩
    rw [literalLines.go, if_pos rfl, List.append_nil]
    exact hread
  | cons d next =>
    have hd : isBreak d = false := by simpa using hnext
    exact block?_lines hbreaks hd
      (fun hgap => eq_space_of_isGap (by simpa using hwritable d (by simp)) hd hgap) next
      hmargin hcolumn l k i

end Literal

end ConventionalRelease.Yaml
