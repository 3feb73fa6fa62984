import ConventionalRelease.Document.Basic
import ConventionalRelease.Text.Quoted

/-!
# Documents in JSON

A document is written in JSON on one line, or with each item and each field on a line of its own. A
list without items and a mapping without fields stay on one line in both layouts.
-/

namespace ConventionalRelease.Json

/-- Where the parts of a JSON text are set. -/
inductive Layout where
  /-- All on one line, without blanks. -/
  | compact
  /-- Each item and field on a line of its own, indented by two spaces for each level. -/
  | indented
  deriving DecidableEq, Repr

namespace Layout

/-- What stands before an item, and before the bracket that closes its list, at a level. -/
def gap : Layout → Nat → List Char
  | compact, _ => []
  | indented, level => '\n' :: List.replicate (2 * level) ' '

/-- What stands between a key and its value. -/
def colon : Layout → List Char
  | compact => [':']
  | indented => [':', ' ']

end Layout

/-- The letter that a character is written with after a backslash, if it has one. -/
def letter? : Char → Option Char
  | '"' => some '"'
  | '\\' => some '\\'
  | '\x08' => some 'b'
  | '\t' => some 't'
  | '\n' => some 'n'
  | '\x0c' => some 'f'
  | '\r' => some 'r'
  | _ => none

/-- A character as it is written between quotes. -/
def character (c : Char) : List Char :=
  match letter? c with
  | some letter => ['\\', letter]
  | none => if c.toNat < 0x20 then '\\' :: 'u' :: (Text.hex c.toNat).leftpad 4 '0' else [c]

/-- A text between quotes. -/
def quoted (s : String) : List Char :=
  '"' :: s.toList.flatMap character ++ ['"']

mutual

/-- A value at a level. -/
def value (l : Layout) (level : Nat) : Document → List Char
  | .null => "null".toList
  | .bool b => (if b then "true" else "false").toList
  | .int n => (toString n).toList
  | .real numeral => numeral.toList
  | .text s => quoted s
  | .list [] => ['[', ']']
  | .list (item :: rest) =>
    '[' :: l.gap (level + 1) ++ value l (level + 1) item ++ moreItems l (level + 1) rest ++
      l.gap level ++ [']']
  | .mapping [] => ['\x7b', '\x7d']
  | .mapping ((key, d) :: rest) =>
    '\x7b' :: l.gap (level + 1) ++ quoted key ++ l.colon ++ value l (level + 1) d ++
      moreFields l (level + 1) rest ++ l.gap level ++ ['\x7d']

/-- The items of a list after the first. -/
def moreItems (l : Layout) (level : Nat) : List Document → List Char
  | [] => []
  | item :: rest => ',' :: l.gap level ++ value l level item ++ moreItems l level rest

/-- The fields of a mapping after the first. -/
def moreFields (l : Layout) (level : Nat) : List (String × Document) → List Char
  | [] => []
  | (key, d) :: rest =>
    ',' :: l.gap level ++ quoted key ++ l.colon ++ value l level d ++ moreFields l level rest

end

/-- The document in JSON. -/
def write (l : Layout) (d : Document) : String :=
  String.ofList (value l 0 d)

end ConventionalRelease.Json

namespace ConventionalRelease.Document

mutual

/-- The document with the fields of all its mappings in the order of their keys. -/
def inKeyOrder : Document → Document
  | null => null
  | bool b => bool b
  | int n => int n
  | real numeral => real numeral
  | text s => text s
  | list items => list (itemsInKeyOrder items)
  | mapping fields => mapping ((fieldsInKeyOrder fields).mergeSort fun a b => decide (a.1 ≤ b.1))

/-- The items, each with its fields in the order of their keys. -/
def itemsInKeyOrder : List Document → List Document
  | [] => []
  | item :: rest => item.inKeyOrder :: itemsInKeyOrder rest

/-- The fields as they are, the fields of each value in the order of their keys. -/
def fieldsInKeyOrder : List (String × Document) → List (String × Document)
  | [] => []
  | (key, d) :: rest => (key, d.inKeyOrder) :: fieldsInKeyOrder rest

end

end ConventionalRelease.Document
