/-!
# Places in a YAML text

A cursor is a place in a text: what is left of it, and the line and the column that the rest begins
at. Line breaks are unified before a text is read, so a line feed stands for every break but the two
separators of Unicode.
-/

namespace ConventionalRelease.Yaml

/-- A line break: a line feed, a line separator or a paragraph separator. -/
def isBreak (c : Char) : Bool :=
  c = '\n' || c = '\u2028' || c = '\u2029'

/-- A space or a tab. -/
def isSpace (c : Char) : Bool :=
  c = ' ' || c = '\t'

/-- A space, a tab or a line break. -/
def isGap (c : Char) : Bool :=
  isSpace c || isBreak c

/-- A text with one line feed for each carriage return, line feed, pair of them or next line
mark. -/
def unifyBreaks : List Char → List Char
  | '\r' :: '\n' :: rest => '\n' :: unifyBreaks rest
  | c :: rest => (if c = '\r' || c = '\u0085' then '\n' else c) :: unifyBreaks rest
  | [] => []

/-- A character that a text may hold. -/
def isAdmitted (c : Char) : Bool :=
  let n := c.toNat
  c = '\t' || c = '\n' || c = '\r' || (0x20 ≤ n && n ≤ 0x7E) || n = 0x85 ||
    (0xA0 ≤ n && n ≤ 0xD7FF) ||
    (0xE000 ≤ n && n ≤ 0xFFFD && n ≠ 0xFEFF) || 0x10000 ≤ n

/-- Whether a gap or the end comes next. -/
def atGap : List Char → Bool
  | [] => true
  | c :: _ => isGap c

/-- A place in a text. -/
structure Cursor where
  /-- What is left of the text. -/
  rest : List Char
  /-- The number of lines before. -/
  line : Nat := 0
  /-- The number of characters before on the line. -/
  column : Nat := 0
  /-- The number of characters before. -/
  index : Nat := 0
  deriving Inhabited, Repr

namespace Cursor

/-- The place after the next character. -/
def skip (c : Cursor) : Cursor :=
  match c.rest with
  | [] => c
  | ch :: rest =>
    if isBreak ch then ⟨rest, c.line + 1, 0, c.index + 1⟩
    else ⟨rest, c.line, c.column + 1, c.index + 1⟩

/-- The place after as many characters as there are in the list. -/
def past (c : Cursor) (taken : List Char) : Cursor :=
  taken.foldl (fun c _ => c.skip) c

/-- The characters in front that satisfy `p`, and the place after them. -/
def span (p : Char → Bool) (c : Cursor) : List Char × Cursor :=
  let taken := c.rest.takeWhile p
  (taken, c.past taken)

/-- The place after the characters in front that satisfy `p`. -/
def skipWhile (p : Char → Bool) (c : Cursor) : Cursor :=
  (c.span p).2

/-- Whether the mark comes next at the beginning of a line, with a gap after it. -/
def startsWithMark (c : Cursor) (mark : List Char) : Bool :=
  c.column = 0 && c.rest.take mark.length = mark && atGap (c.rest.drop mark.length)

/-- The mark at the beginning of a document. -/
def beginMark : List Char := ['-', '-', '-']

/-- The mark at the end of a document. -/
def endMark : List Char := ['.', '.', '.']

/-- Whether a mark of the beginning or the end of a document comes next. -/
def atDocumentMark (c : Cursor) : Bool :=
  c.startsWithMark beginMark || c.startsWithMark endMark

end Cursor

end ConventionalRelease.Yaml
