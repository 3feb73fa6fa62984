import ConventionalRelease.Yaml.Scalar

/-!
# Tokens of a YAML text

A text is cut into tokens. Block collections have no marks of their own: their beginning and end
follow from the columns that their keys and entries stand at, and become tokens here. What may turn
out to be a key is remembered, and the token that says so is put in front of it when its colon is
found on the same line.

Anchors, aliases and tags are refused.
-/

namespace ConventionalRelease.Yaml

/-- A token. -/
inductive Token where
  /-- The edition of the language that a document is written in. -/
  | edition
  /-- The beginning of a document. -/
  | documentStart
  /-- The end of a document. -/
  | documentEnd
  /-- The beginning of a sequence in block style. -/
  | sequenceStart
  /-- The beginning of a mapping in block style. -/
  | mappingStart
  /-- The end of a collection in block style. -/
  | blockEnd
  /-- The mark of an entry in block style. -/
  | entry
  | key
  | value
  /-- The opening bracket of a sequence. -/
  | flowSequenceStart
  /-- The closing bracket of a sequence. -/
  | flowSequenceEnd
  /-- The opening bracket of a mapping. -/
  | flowMappingStart
  /-- The closing bracket of a mapping. -/
  | flowMappingEnd
  /-- The comma between entries. -/
  | comma
  /-- A scalar; what a plain one stands for depends on its form. -/
  | scalar (plain : Bool) (text : List Char)
  deriving DecidableEq, Inhabited, Repr

/-- What may turn out to be a key. -/
structure PossibleKey where
  /-- The number of tokens before it. -/
  place : Nat
  start : Cursor
  /-- Whether nothing but a key can stand there. -/
  required : Bool
  deriving Inhabited

/-- The greatest length of a key. -/
def longestKey : Nat := 1024

/-- Whether a key can have reached to the cursor: it stands on one line and is not too long. -/
def PossibleKey.reaches (k : PossibleKey) (c : Cursor) : Bool :=
  k.start.line = c.line && c.index ≤ k.start.index + longestKey

/-- What is known while a text is cut into tokens. -/
structure Scan where
  /-- The place that is reached. -/
  cursor : Cursor
  /-- The tokens before it. -/
  tokens : List Token := []
  /-- The columns of the block collections that are open, the innermost first. -/
  columns : List Nat := []
  /-- What may turn out to be a key in the innermost collection. -/
  possibleKey : Option PossibleKey := none
  /-- What may turn out to be keys outside of the flow collections that are open, the innermost
  first. -/
  outerKeys : List (Option PossibleKey) := []
  /-- Whether a key may begin here. -/
  keyAllowed : Bool := true
  deriving Inhabited

namespace Scan

/-- Whether a flow collection is open. -/
def inFlow (s : Scan) : Bool :=
  !s.outerKeys.isEmpty

/-- Adds a token. -/
def push (s : Scan) (t : Token) : Scan :=
  { s with tokens := s.tokens ++ [t] }

/-- Puts a token at a place among those there are. -/
def pushAt (s : Scan) (place : Nat) (t : Token) : Scan :=
  { s with tokens := s.tokens.take place ++ t :: s.tokens.drop place }

/-- Closes the block collections that stand further right than the column; the flow collections that
are open have to be closed first. -/
def close (s : Scan) (column : Nat) : Scan :=
  if s.inFlow then s
  else
    { s with
      tokens := s.tokens ++ List.replicate (s.columns.takeWhile (column < ·)).length .blockEnd
      columns := s.columns.dropWhile (column < ·) }

/-- Closes all block collections. -/
def closeAll (s : Scan) : Scan :=
  if s.inFlow then s
  else { s with tokens := s.tokens ++ List.replicate s.columns.length .blockEnd, columns := [] }

/-- Opens a block collection at the column, if it stands further right than the open ones. -/
def openBlock (s : Scan) (column place : Nat) (t : Token) : Scan :=
  if s.inFlow || s.columns.head?.any (column ≤ ·) then s
  else { s.pushAt place t with columns := column :: s.columns }

/-- Gives up what might have been a key. -/
def dropKey? (s : Scan) : Option Scan :=
  if s.possibleKey.any (·.required) then none else some { s with possibleKey := none }

/-- Remembers that a key may begin here. In block style it has to be one if it stands at the column
of the collection. -/
def saveKey? (s : Scan) : Option Scan :=
  if s.keyAllowed then do
    let s ← s.dropKey?
    let required := !s.inFlow && s.columns.head? = some s.cursor.column
    return { s with possibleKey := some ⟨s.tokens.length, s.cursor, required⟩ }
  else some s

/-! ## Tokens by their first characters -/

/-- Skips as many characters. -/
def skip (s : Scan) (n : Nat) : Scan :=
  { s with cursor := s.cursor.past (s.cursor.rest.take n) }

/-- Reads the number of an edition. -/
def editionNumber? (c : Cursor) : Option (Nat × Cursor) :=
  let (digits, c) := c.span Char.isDigit
  if digits.isEmpty || 9 < digits.length then none else some (Nat.ofDigitChars 10 digits 0, c)

/-- Reads the edition of the language, which has to be 1.1 or 1.2. -/
def edition? (s : Scan) : Option Scan := do
  let s ← s.closeAll.dropKey?
  let (name, c) := s.cursor.skip.span fun ch => ch.isAlphanum || ch = '_' || ch = '-'
  if name ≠ ['Y', 'A', 'M', 'L'] then none
  let (major, c) ← editionNumber? (c.skipWhile isSpace)
  if c.rest.head? ≠ some '.' then none
  let (minor, c) ← editionNumber? c.skip
  if major ≠ 1 || (minor ≠ 1 && minor ≠ 2) then none
  let c := c.skipWhile isSpace
  let c := if c.rest.head? = some '#' then c.skipWhile (!isBreak ·) else c
  if c.rest.head?.any (!isBreak ·) then none
  return { s.push .edition with cursor := c.skip, keyAllowed := false }

/-- Reads a mark of the beginning or the end of a document. -/
def documentMark? (s : Scan) (t : Token) : Option Scan := do
  let s ← s.closeAll.dropKey?
  return { (s.push t).skip 3 with keyAllowed := false }

/-- Reads an opening bracket. -/
def openFlow? (s : Scan) (t : Token) : Option Scan := do
  let s ← s.saveKey?
  return { (s.push t).skip 1 with
    outerKeys := s.possibleKey :: s.outerKeys, possibleKey := none, keyAllowed := true }

/-- Reads a closing bracket. -/
def closeFlow? (s : Scan) (t : Token) : Option Scan := do
  let s ← s.dropKey?
  let s := { (s.push t).skip 1 with keyAllowed := false }
  match s.outerKeys with
  | [] => return s
  | k :: more => return { s with possibleKey := k, outerKeys := more }

/-- Reads a comma. -/
def comma? (s : Scan) : Option Scan := do
  let s ← s.dropKey?
  return { (s.push .comma).skip 1 with keyAllowed := true }

/-- Reads the mark of an entry, which opens a sequence where none is open at its column. -/
def entry? (s : Scan) : Option Scan := do
  if !s.inFlow && !s.keyAllowed then none
  let s := s.openBlock s.cursor.column s.tokens.length .sequenceStart
  let s ← s.dropKey?
  return { (s.push .entry).skip 1 with keyAllowed := true }

/-- Reads the mark of a key, which opens a mapping where none is open at its column. -/
def key? (s : Scan) : Option Scan := do
  if !s.inFlow && !s.keyAllowed then none
  let s := s.openBlock s.cursor.column s.tokens.length .mappingStart
  let s ← s.dropKey?
  return { (s.push .key).skip 1 with keyAllowed := !s.inFlow }

/-- Reads the mark of a value. What stands before it on the line becomes its key, which opens a
mapping where none is open at its column. -/
def value? (s : Scan) : Option Scan := do
  match s.possibleKey.filter (·.reaches s.cursor) with
  | some k =>
    let s := (s.pushAt k.place .key).openBlock k.start.column k.place .mappingStart
    return { (s.push .value).skip 1 with possibleKey := none, keyAllowed := false }
  | none =>
    let s ← s.dropKey?
    if !s.inFlow && !s.keyAllowed then none
    let s := s.openBlock s.cursor.column s.tokens.length .mappingStart
    return { (s.push .value).skip 1 with keyAllowed := !s.inFlow }

/-- Reads a block of lines. -/
def block? (s : Scan) (folding : Bool) : Option Scan := do
  let s ← s.dropKey?
  let found ← Yaml.block? folding s.columns.head? s.cursor
  return { s.push (.scalar false found.text) with cursor := found.cursor, keyAllowed := true }

/-- Reads a quoted scalar. -/
def quoted? (s : Scan) (double : Bool) : Option Scan := do
  let s ← s.saveKey?
  let found ← Yaml.quoted? double s.cursor
  return { s.push (.scalar false found.text) with cursor := found.cursor, keyAllowed := false }

/-- Reads a plain scalar. -/
def plain? (s : Scan) : Option Scan := do
  let s ← s.saveKey?
  let found ← Yaml.plain? s.inFlow ((s.columns.head?.map (· + 1)).getD 0) s.cursor
  return { s.push (.scalar true found.text) with
    cursor := found.cursor, keyAllowed := found.lineEnded }

/-! ## All tokens -/

/-- Skips blanks, comments and line breaks. A tab is no blank where a key may begin, and after a
line break a key may begin in block style. -/
def skipGap (s : Scan) : (fuel : Nat) → Scan
  | 0 => s
  | fuel + 1 =>
    match s.cursor.rest with
    | [] => s
    | ch :: _ =>
      if ch = ' ' || (ch = '\t' && (s.inFlow || !s.keyAllowed)) then (s.skip 1).skipGap fuel
      else if ch = '#' then
        { s with cursor := s.cursor.skipWhile (!isBreak ·) }.skipGap fuel
      else if isBreak ch then
        { s.skip 1 with keyAllowed := s.keyAllowed || !s.inFlow }.skipGap fuel
      else s

/-- The characters that no plain scalar begins with. -/
def isIndicator (c : Char) : Bool :=
  c ∈ ['-', '?', ':', ',', '[', ']', '\x7b', '\x7d', '#', '&', '*', '!', '|', '>', '\'',
    '"', '%', '@', '\x60']

/-- Whether a plain scalar begins with the character, before `rest`. -/
def beginsPlain (inFlow : Bool) (c : Char) (rest : List Char) : Bool :=
  !(isGap c || isIndicator c) || (c = '-' && !rest.head?.any isSpace) ||
    (!inFlow && (c = '?' || c = ':') && !atGap rest)

/-- Reads the token that begins with the character, before `rest`. -/
def token? (s : Scan) (c : Char) (rest : List Char) : Option Scan :=
  if s.cursor.column = 0 && c = '%' then s.edition?
  else if s.cursor.startsWithMark Cursor.beginMark then s.documentMark? .documentStart
  else if s.cursor.startsWithMark Cursor.endMark then s.documentMark? .documentEnd
  else if c = '[' then s.openFlow? .flowSequenceStart
  else if c = '\x7b' then s.openFlow? .flowMappingStart
  else if c = ']' then s.closeFlow? .flowSequenceEnd
  else if c = '\x7d' then s.closeFlow? .flowMappingEnd
  else if c = ',' then s.comma?
  else if c = '-' && atGap rest then s.entry?
  else if c = '?' && (s.inFlow || atGap rest) then s.key?
  else if c = ':' && (s.inFlow || atGap rest) then s.value?
  else if c = '|' && !s.inFlow then s.block? false
  else if c = '>' && !s.inFlow then s.block? true
  else if c = '\'' then s.quoted? false
  else if c = '"' then s.quoted? true
  else if beginsPlain s.inFlow c rest then s.plain?
  else none

/-- Reads all tokens. -/
def run? (s : Scan) : (fuel : Nat) → Option (List Token)
  | 0 => none
  | fuel + 1 =>
    let s := s.skipGap (s.cursor.rest.length + 1)
    match s.cursor.rest with
    | [] => (fun s => s.tokens) <$> s.closeAll.dropKey?
    | c :: rest => do (← (s.close s.cursor.column).token? c rest).run? fuel

end Scan

/-- The tokens of a text, if it can be cut into tokens. -/
def Token.readAll? (s : List Char) : Option (List Token) :=
  let s := if s.head? = some '\uFEFF' then s.drop 1 else s
  if s.all isAdmitted then
    let s := unifyBreaks s
    { cursor := { rest := s } : Scan }.run? (s.length + 1)
  else none

end ConventionalRelease.Yaml
