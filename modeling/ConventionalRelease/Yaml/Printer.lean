import ConventionalRelease.Document.Basic
import ConventionalRelease.Yaml.Plain
import ConventionalRelease.Yaml.Scalar

/-!
# Documents written in YAML

Mappings and sequences are written in block style, one key or entry a line, and the entries of a
sequence stand at the column of its key. A text is written plain where it reads back as that text,
and else quoted, or as a block of lines when it has several. A key that is long or has several lines
is written like a value, after a question mark, and its value stands below it.
-/

namespace ConventionalRelease.Yaml

/-! ## Styles of scalars -/

/-- How a scalar is written. -/
inductive ScalarStyle where
  | plain
  | single
  /-- Between double quotes, with escapes. -/
  | double
  /-- As a block of lines. -/
  | literal
  deriving DecidableEq, Repr

/-- Words that stand for truth values in older editions of the language. -/
def oldTruthWords : List String :=
  ["y", "Y", "yes", "Yes", "YES", "n", "N", "no", "No", "NO", "true", "True", "TRUE",
    "false", "False", "FALSE", "on", "On", "ON", "off", "Off", "OFF"]

/-- Whether a text written plain would not be read as that text, or not by every reader. -/
def isAmbiguous (s : List Char) : Bool :=
  String.ofList s ∈ oldTruthWords || PlainForm.of s ≠ .word || hasNeedlessZero s

/-- A character that is written as it stands: no control, and none beyond the first plane. -/
def isWritable (c : Char) : Bool :=
  let n := c.toNat
  n = 0x0A || (0x20 ≤ n && n ≤ 0x7E) || (0xA0 ≤ n && n ≤ 0xD7FF) ||
    (0xE000 ≤ n && n ≤ 0xFFFD && n ≠ 0xFEFF)

/-- The characters that cannot stand first in a plain scalar. -/
def isLeadingMark (c : Char) : Bool :=
  c ∈ ['#', ',', '[', ']', '\x7b', '\x7d', '&', '*', '!', '|', '>', '\'', '"', '%', '@', '\x60']

/-- Whether the first character, before `rest`, cannot begin a plain scalar. -/
def beginsMarked (s : List Char) : Bool :=
  match s with
  | [] => false
  | c :: rest => isLeadingMark c || (c ∈ ['?', ':', '-'] && atGap rest)

/-- Whether after its first character the text has a colon before a gap or a number sign after
one. -/
def hasInnerMark : List Char → Bool
  | [] => false
  | [_] => false
  | a :: b :: rest =>
    (b = ':' && atGap rest) || (b = '#' && isGap a) || hasInnerMark (b :: rest)

/-- Whether the text begins like a mark of a document. -/
def beginsLikeMark (s : List Char) : Bool :=
  s.take 3 = Cursor.beginMark || s.take 3 = Cursor.endMark

/-- Whether a character that satisfies `p` stands right before one that satisfies `q`. -/
def hasPair (p q : Char → Bool) (s : List Char) : Bool :=
  (s.zip s.tail).any fun (a, b) => p a && q b

/-- Whether the text can be written plain. -/
def allowsPlain (s : List Char) : Bool :=
  let ends := s.head?.toList ++ s.getLast?.toList
  !(beginsMarked s || hasInnerMark s || beginsLikeMark s || ends.any (· = ' ') || s.any isBreak ||
    s.any (!isWritable ·))

/-- Whether the text can be written between single quotes: no space stands next to a line break. -/
def allowsSingle (s : List Char) : Bool :=
  !(hasPair isBreak (· = ' ') s || hasPair (· = ' ') isBreak s || s.any (!isWritable ·))

/-- Whether the text can be written as a block of lines: no line but an empty one ends in a
space. -/
def allowsLiteral (s : List Char) : Bool :=
  !(s.isEmpty || s.getLast? = some ' ' || hasPair (· = ' ') isBreak s || s.any (!isWritable ·))

/-- The style of a text. -/
def ScalarStyle.of (s : List Char) : ScalarStyle :=
  if s.contains '\n' then if allowsLiteral s then .literal else .double
  else if allowsPlain s && !isAmbiguous s then .plain
  else if allowsSingle s then .single
  else .double

/-! ## Texts of scalars -/

/-- As many spaces. -/
def spaces (n : Nat) : List Char := List.replicate n ' '

/-- A text between single quotes, where a quote is written twice and what follows a line break is
indented. -/
def singleText (indent : Nat) (s : List Char) : List Char :=
  let rec go (broken : Bool) : List Char → List Char
    | [] => if broken then spaces indent else []
    | c :: rest =>
      if isBreak c then c :: go true rest
      else (if broken then spaces indent else []) ++ (if c = '\'' then ['\'', '\''] else [c]) ++
        go false rest
  '\'' :: go false s ++ ['\'']

/-- A number in capital hexadecimal digits of a width. -/
def hexText (width n : Nat) : List Char :=
  ((Nat.toDigits 16 n).map Char.toUpper).leftpad width '0'

/-- The letter of the escape of a character, if it has one. -/
def escapeLetter? (c : Char) : Option Char :=
  [('\u0000', '0'), ('\u0007', 'a'), ('\u0008', 'b'), ('\t', 't'), ('\n', 'n'), ('\u000B', 'v'),
    ('\u000C', 'f'), ('\r', 'r'), ('\u001B', 'e'), ('"', '"'), ('\\', '\\'), ('\u0085', 'N'),
    ('\u2028', 'L'), ('\u2029', 'P')].lookup c

/-- A character between double quotes. -/
def doubleCharacter (c : Char) : List Char :=
  if isWritable c && !isBreak c && c ≠ '"' && c ≠ '\\' then [c]
  else match escapeLetter? c with
    | some letter => ['\\', letter]
    | none =>
      let n := c.toNat
      if n ≤ 0xFF then '\\' :: 'x' :: hexText 2 n
      else if n ≤ 0xFFFF then '\\' :: 'u' :: hexText 4 n
      else '\\' :: 'U' :: hexText 8 n

/-- A text between double quotes. -/
def doubleText (s : List Char) : List Char :=
  '"' :: s.flatMap doubleCharacter ++ ['"']

/-- The header of a block of lines: by how much it is indented when its first line begins with a
space or is empty, and what becomes of the line breaks at its end. -/
def literalHeader (s : List Char) : List Char :=
  let hint := if s.head?.any (fun c => c = ' ' || isBreak c) then ['2'] else []
  let chomping := match s.reverse with
    | [] => ['-']
    | c :: before =>
      if !isBreak c then ['-']
      else if before.head?.all isBreak then ['+']
      else []
  '|' :: hint ++ chomping

/-- A text as lines that are indented where they are not empty, with a break at the end. -/
def literalLines (indent : Nat) (s : List Char) : List Char :=
  let rec go (broken : Bool) : List Char → List Char
    | [] => if broken then [] else ['\n']
    | c :: rest =>
      if isBreak c then c :: go true rest
      else (if broken then spaces indent else []) ++ c :: go false rest
  go true s

/-- A scalar on its line, with the break at the end. -/
def scalarLine (indent : Nat) (s : List Char) : List Char :=
  match ScalarStyle.of s with
  | .plain => s ++ ['\n']
  | .single => singleText indent s ++ ['\n']
  | .double => doubleText s ++ ['\n']
  | .literal => literalHeader s ++ '\n' :: literalLines indent s

/-- The greatest size of a key that stands before its colon, in bytes. -/
def longestSimpleKey : Nat := 128

/-- Whether a key stands before its colon: it has no line break and is not too long. -/
def isSimpleKey (key : String) : Bool :=
  !key.toList.any (fun c => isBreak c || c = '\r' || c = '\u0085') &&
    key.utf8ByteSize ≤ longestSimpleKey

/-- A key that stands before its colon. -/
def keyText (s : List Char) : List Char :=
  match ScalarStyle.of s with
  | .plain => s
  | .single => singleText 0 s
  | .double | .literal => doubleText s

/-! ## Documents -/

/-- A single value on its line; none for a collection. -/
def valueLine? (indent : Nat) : Document → Option (List Char)
  | .null => some ['n', 'u', 'l', 'l', '\n']
  | .bool b => some ((if b then "true" else "false").toList ++ ['\n'])
  | .int n => some ((toString n).toList ++ ['\n'])
  | .real numeral => some (numeral.toList ++ ['\n'])
  | .text s => some (scalarLine (indent + 2) s.toList)
  | .list [] => some ['[', ']', '\n']
  | .mapping [] => some ['\x7b', '\x7d', '\n']
  | _ => none

mutual

/-- The lines of the entries of a sequence at a column; the first is not indented when it goes on on
a line. -/
def entryLines (column : Nat) (inLine : Bool) : List Document → List Char
  | [] => []
  | item :: rest =>
    (if inLine then [] else spaces column) ++ '-' :: ' ' :: nestedLines (column + 2) item ++
      entryLines column false rest

/-- The lines of a document that goes on on the line of an entry, at a column. -/
def nestedLines (column : Nat) (d : Document) : List Char :=
  match d with
  | .mapping (field :: fields) => fieldLines column true (field :: fields)
  | .list (item :: items) => entryLines column true (item :: items)
  | d => (valueLine? (column - 2) d).getD []

/-- The lines of the fields of a mapping at a column; the first is not indented when it goes on on a
line. -/
def fieldLines (column : Nat) (inLine : Bool) : List (String × Document) → List Char
  | [] => []
  | (key, value) :: rest =>
    (if inLine then [] else spaces column) ++
      (if isSimpleKey key then keyText key.toList ++ ':' :: valueLines column value
        else '?' :: ' ' :: scalarLine (column + 2) key.toList ++
          spaces column ++ ':' :: ' ' :: nestedLines (column + 2) value) ++
      fieldLines column false rest

/-- The lines of the value of a key at a column, from the place after the colon on. -/
def valueLines (column : Nat) (d : Document) : List Char :=
  match d with
  | .mapping (field :: fields) => '\n' :: fieldLines (column + 2) false (field :: fields)
  | .list (item :: items) => '\n' :: entryLines column false (item :: items)
  | d => ' ' :: (valueLine? column d).getD []

end

/-- A document as a text. -/
def write (d : Document) : String :=
  String.ofList (nestedLines 0 d)

end ConventionalRelease.Yaml
