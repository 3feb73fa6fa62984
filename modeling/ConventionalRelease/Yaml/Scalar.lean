import ConventionalRelease.Text.Numeral
import ConventionalRelease.Yaml.Cursor

/-!
# Scalars of a YAML text

A scalar is a text in one of three styles: plain, quoted, or as a block of lines. Line breaks within
plain and quoted scalars are folded: a single one is read as a space, and of several the first is
left out.
-/

namespace ConventionalRelease.Yaml

/-- What a gap within a scalar is read as. Without a break it stands as it is; with breaks, the
blanks around them are left out, and a first line feed counts as a space when it is the only break
and as nothing when it is not. -/
def folded (gap : List Char) : List Char :=
  match gap.filter isBreak with
  | [] => gap
  | b :: more =>
    if b = '\n' then
      if more.isEmpty then [' '] else more
    else b :: more

/-- A scalar that was read. -/
structure Scalar where
  text : List Char
  /-- The place after it. -/
  cursor : Cursor
  /-- Whether the line was ended in search of its end. -/
  lineEnded : Bool := false
  deriving Inhabited

/-! ## Plain scalars -/

/-- The brackets and the comma of flow collections. -/
def isFlowMark (c : Char) : Bool :=
  c ∈ [',', '[', ']', '{', '}']

/-- The word of a plain scalar in front: it ends before a gap, before a colon that a gap follows,
and in a flow collection before one of its marks. There a colon right before a mark is an error. -/
def plainWord? (inFlow : Bool) : List Char → Option (List Char)
  | [] => some []
  | c :: rest =>
    if isGap c then some []
    else if inFlow && c = ':' && rest.head?.any (fun m => isFlowMark m || m = '?') then none
    else if (c = ':' && atGap rest) || (inFlow && isFlowMark c) then some []
    else (c :: ·) <$> plainWord? inFlow rest

/-- The lines of a gap after its first break. -/
def linesAfterBreak : List Char → List (List Char)
  | [] => []
  | c :: rest =>
    if isBreak c then rest.takeWhile (!isBreak ·) :: linesAfterBreak rest else linesAfterBreak rest

/-- Whether a line of the gap has a tab where it has to be indented. -/
def hasTabInIndentation (indent : Nat) (gap : List Char) : Bool :=
  (linesAfterBreak gap).any fun line => (line.take indent).contains '\t'

/-- Reads the words of a plain scalar from a cursor on, after `text` and a gap. It ends before a
comment, a document mark, a word that is empty and, unless it stands in a flow collection, a line
that is indented less. -/
def plainFrom? (inFlow : Bool) (indent : Nat) :
    (fuel : Nat) → (text gap : List Char) → Cursor → Option Scalar
  | 0, _, _, _ => none
  | fuel + 1, text, gap, c =>
    if c.atDocumentMark || c.rest.head? = some '#' then some ⟨text, c, gap.any isBreak⟩
    else do
      let word ← plainWord? inFlow c.rest
      if word.isEmpty then some ⟨text, c, gap.any isBreak⟩
      else
        let text := text ++ folded gap ++ word
        let (gap, next) := (c.past word).span isGap
        if hasTabInIndentation indent gap then none
        else if !inFlow && next.column < indent then some ⟨text, next, gap.any isBreak⟩
        else plainFrom? inFlow indent fuel text gap next

/-- Reads a plain scalar; its lines after the first are indented at least by `indent`. -/
def plain? (inFlow : Bool) (indent : Nat) (c : Cursor) : Option Scalar :=
  plainFrom? inFlow indent (c.rest.length + 1) [] [] c

/-! ## Quoted scalars -/

/-- The character that an escape of one letter stands for. -/
def escaped? (c : Char) : Option Char :=
  [('0', '\u0000'), ('a', '\u0007'), ('b', '\u0008'), ('t', '\t'), ('\t', '\t'), ('n', '\n'),
    ('v', '\u000B'), ('f', '\u000C'), ('r', '\r'), ('e', '\u001B'), (' ', ' '),
    ('"', '"'), ('/', '/'), ('\\', '\\'), ('N', '\u0085'), ('_', '\u00A0'), ('L', '\u2028'),
    ('P', '\u2029')].lookup c

/-- How many hexadecimal digits follow the letter of an escape. -/
def escapeWidth? (c : Char) : Option Nat :=
  [('x', 2), ('u', 4), ('U', 8)].lookup c

/-- Reads an escape after its backslash: the character, and how many characters were read. -/
def escape? : List Char → Option (Char × Nat)
  | [] => none
  | c :: rest =>
    match escaped? c with
    | some meaning => some (meaning, 1)
    | none => do
      let width ← escapeWidth? c
      let digits := rest.take width
      if digits.length < width then none
      else return (← characterOfHex? digits, width + 1)

/-- Reads a scalar between double quotes from a cursor on, after `text`. -/
def doubleQuotedFrom? : (fuel : Nat) → (text : List Char) → Cursor → Option Scalar
  | 0, _, _ => none
  | fuel + 1, text, c =>
    if c.atDocumentMark then none
    else match c.rest with
      | [] => none
      | '"' :: _ => some { text, cursor := c.skip }
      | '\\' :: rest =>
        if rest.head?.any isBreak then
          let (gap, next) := c.skip.skip.span isGap
          doubleQuotedFrom? fuel (text ++ gap.filter isBreak) next
        else do
          let (meaning, width) ← escape? rest
          doubleQuotedFrom? fuel (text ++ [meaning]) (c.past (c.rest.take (width + 1)))
      | ch :: _ =>
        if isGap ch then
          let (gap, next) := c.span isGap
          doubleQuotedFrom? fuel (text ++ folded gap) next
        else doubleQuotedFrom? fuel (text ++ [ch]) c.skip

/-- Reads a scalar between single quotes from a cursor on, after `text`. A quote within it is
written twice. -/
def singleQuotedFrom? : (fuel : Nat) → (text : List Char) → Cursor → Option Scalar
  | 0, _, _ => none
  | fuel + 1, text, c =>
    if c.atDocumentMark then none
    else match c.rest with
      | [] => none
      | '\'' :: '\'' :: _ => singleQuotedFrom? fuel (text ++ ['\'']) c.skip.skip
      | '\'' :: _ => some { text, cursor := c.skip }
      | ch :: _ =>
        if isGap ch then
          let (gap, next) := c.span isGap
          singleQuotedFrom? fuel (text ++ folded gap) next
        else singleQuotedFrom? fuel (text ++ [ch]) c.skip

/-- Reads a quoted scalar from its opening quote on. -/
def quoted? (double : Bool) (c : Cursor) : Option Scalar :=
  let fuel := c.rest.length + 1
  if double then doubleQuotedFrom? fuel [] c.skip else singleQuotedFrom? fuel [] c.skip

/-! ## Blocks of lines -/

/-- What becomes of the line breaks at the end of a block. -/
inductive Chomping where
  /-- They are left out. -/
  | strip
  /-- The first is kept. -/
  | clip
  | keep
  deriving DecidableEq, Inhabited

/-- The header of a block. -/
structure BlockHeader where
  /-- What becomes of the line breaks at the end. -/
  chomping : Chomping := .clip
  /-- By how much the lines are indented, if it is said. -/
  indent : Option Nat := none
  deriving Inhabited

/-- Reads a mark of chomping. -/
def chomping? : Char → Option Chomping
  | '+' => some .keep
  | '-' => some .strip
  | _ => none

/-- Reads a digit from 1 on. -/
def indicatedIndent? (c : Char) : Option Nat :=
  if c.isDigit && c ≠ '0' then some (c.toNat - 0x30) else none

/-- Reads the marks of a header after its first, in either order. -/
def BlockHeader.read (c : Cursor) : BlockHeader × Cursor :=
  match c.rest with
  | a :: rest =>
    match chomping? a with
    | some chomping =>
      match rest.head?.bind indicatedIndent? with
      | some n => (⟨chomping, some n⟩, c.skip.skip)
      | none => (⟨chomping, none⟩, c.skip)
    | none =>
      match indicatedIndent? a with
      | some n =>
        match rest.head?.bind chomping? with
        | some chomping => (⟨chomping, some n⟩, c.skip.skip)
        | none => (⟨.clip, some n⟩, c.skip)
      | none => ({}, c)
  | [] => ({}, c)

/-- Skips the spaces in front up to a column. -/
def skipIndentation (indent : Nat) (c : Cursor) : Cursor :=
  c.past ((c.rest.take (indent - c.column)).takeWhile (· = ' '))

/-- Reads the empty lines of a block and the indentation of the line after them. No tab may stand in
the indentation. -/
def emptyLines? (indent : Nat) :
    (fuel : Nat) → (breaks : List Char) → Cursor → Option (List Char × Cursor)
  | 0, _, _ => none
  | fuel + 1, breaks, c =>
    let c := skipIndentation indent c
    match c.rest with
    | ch :: _ =>
      if ch = '\t' && c.column < indent then none
      else if isBreak ch then emptyLines? indent fuel (breaks ++ [ch]) c.skip
      else some (breaks, c)
    | [] => some (breaks, c)

/-- Reads the empty lines at the beginning of a block and the indentation of the line after them,
and finds the greatest indentation of those lines. -/
def firstLines? :
    (fuel : Nat) → (breaks : List Char) → (indent : Nat) → Cursor →
      Option (List Char × Nat × Cursor)
  | 0, _, _, _ => none
  | fuel + 1, breaks, indent, c =>
    let c := c.skipWhile (· = ' ')
    let indent := max indent c.column
    match c.rest with
    | ch :: _ =>
      if ch = '\t' then none
      else if isBreak ch then firstLines? fuel (breaks ++ [ch]) indent c.skip
      else some (breaks, indent, c)
    | [] => some (breaks, indent, c)

/-- The lines of a block that have been read. -/
structure BlockText where
  /-- The text up to the end of the last line. -/
  text : List Char := []
  /-- The break of the last line. -/
  lastBreak : List Char := []
  /-- The empty lines after it. -/
  breaks : List Char := []
  /-- Whether the last line began with a blank. -/
  indented : Bool := false
  deriving Inhabited

/-- Adds a line. Where lines are folded, the break before it is read as a space if no empty line was
between, and as nothing otherwise, unless one of the two lines begins with a blank. -/
def BlockText.add (block : BlockText) (folding : Bool) (line lineBreak : List Char) : BlockText :=
  let indented := line.head?.any isSpace
  let joint :=
    if folding && block.lastBreak = ['\n'] && !block.indented && !indented then
      if block.breaks.isEmpty then [' '] else block.breaks
    else block.lastBreak ++ block.breaks
  { text := block.text ++ joint ++ line, lastBreak := lineBreak, breaks := [], indented }

/-- The whole text of a block. -/
def BlockText.finish (block : BlockText) : Chomping → List Char
  | .strip => block.text
  | .clip => block.text ++ block.lastBreak
  | .keep => block.text ++ block.lastBreak ++ block.breaks

/-- Reads the lines of a block that are indented by `indent`. -/
def blockLines? (folding : Bool) (indent : Nat) :
    (fuel : Nat) → BlockText → Cursor → Option (BlockText × Cursor)
  | 0, _, _ => none
  | fuel + 1, block, c =>
    if c.column = indent && !c.rest.isEmpty then do
      let (line, next) := c.span (!isBreak ·)
      let lineBreak := next.rest.take 1
      let block := block.add folding line lineBreak
      let (breaks, next) ← emptyLines? indent (c.rest.length + 1) [] (next.past lineBreak)
      blockLines? folding indent fuel { block with breaks } next
    else some (block, c)

/-- Reads a block from its mark on. Its lines are indented more than the `parent`, if there is
one. -/
def block? (folding : Bool) (parent : Option Nat) (c : Cursor) : Option Scalar := do
  let (header, c) := BlockHeader.read c.skip
  let c := c.skipWhile isSpace
  let c := if c.rest.head? = some '#' then c.skipWhile (!isBreak ·) else c
  if c.rest.head?.any (!isBreak ·) then none
  let c := c.skip
  let fuel := c.rest.length + 1
  let (breaks, indent, c) ← match header.indent with
    | some n =>
      let indent := parent.getD 0 + n
      (fun (breaks, c) => (breaks, indent, c)) <$> emptyLines? indent fuel [] c
    | none =>
      let least := max 1 ((parent.map (· + 1)).getD 0)
      (fun (breaks, widest, c) => (breaks, max widest least, c)) <$> firstLines? fuel [] 0 c
  let (block, c) ← blockLines? folding indent fuel { breaks } c
  return { text := block.finish header.chomping, cursor := c }

end ConventionalRelease.Yaml
