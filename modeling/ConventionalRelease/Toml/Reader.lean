import ConventionalRelease.Toml.Scalar
import ConventionalRelease.Toml.Table

/-!
# Documents in TOML

A text is a list of lines, each a header or a value for a key of the table under the last header. A
point in time is read as a mapping that has its text, as it is written, under a key of its own.
Values may be nested to any depth.
-/

namespace ConventionalRelease.Toml

/-- The key that the text of a point in time has. -/
def momentKey : String := "$__toml_private_datetime"

/-- A character of a number, a truth value or a point in time. -/
def isWordPart (c : Char) : Bool :=
  c.isAlphanum || c ∈ ['_', '+', '-', '.', ':']

/-- The spellings of numbers that are none. -/
def specialNumbers : List String :=
  ["inf", "+inf", "-inf", "nan", "+nan", "-nan"]

/-- What a word stands for: a truth value or a number. A number that is too large for double
precision is none when it is negative, and an error when it is not. -/
def word? (s : List Char) : Option Document :=
  let word := String.ofList s
  if word = "true" then some (.bool true)
  else if word = "false" then some (.bool false)
  else if word ∈ specialNumbers then some .null
  else match integer? s with
    | some n => some (.int n)
    | none => do
      let d ← decimal? s
      if d.isFinite then some (.real word)
      else if s.head? = some '-' then some .null
      else none

mutual

/-- Reads a value. -/
def value? (fuel : Nat) (s : List Char) : Option (Document × List Char) :=
  match fuel with
  | 0 => none
  | fuel + 1 =>
    match s with
    | [] => none
    | '[' :: rest => array? fuel [] rest
    | '\x7b' :: rest =>
      match skipSpaces rest with
      | '\x7d' :: rest => some (.mapping [], rest)
      | rest => inlineTable? fuel [] rest
    | c :: _ =>
      if c = '"' || c = '\'' then
        (string? s).map fun (text, rest) => (.text (String.ofList text), rest)
      else match moment? s with
        | some rest =>
          let text := s.take (s.length - rest.length)
          some (.mapping [(momentKey, .text (String.ofList text))], rest)
        | none =>
          let word := s.takeWhile isWordPart
          (word? word).map (·, s.drop word.length)

/-- Reads the elements of an array, after `items`, up to its closing bracket. -/
def array? (fuel : Nat) (items : List Document) (s : List Char) : Option (Document × List Char) :=
  match fuel with
  | 0 => none
  | fuel + 1 =>
    match skipLines (s.length + 1) s with
    | ']' :: rest => some (.list items, rest)
    | s => do
      let (item, rest) ← value? fuel s
      match skipLines (rest.length + 1) rest with
      | ',' :: rest => array? fuel (items ++ [item]) rest
      | ']' :: rest => some (.list (items ++ [item]), rest)
      | _ => none

/-- Reads the fields of a table in braces, after `fields`, up to its closing brace. -/
def inlineTable? (fuel : Nat) (fields : Fields) (s : List Char) : Option (Document × List Char) :=
  match fuel with
  | 0 => none
  | fuel + 1 => do
    let ((key, value), rest) ← field? fuel s
    let fields ← assign? key value fields
    match skipSpaces rest with
    | ',' :: rest => inlineTable? fuel fields rest
    | '\x7d' :: rest => some (.mapping (fieldDocuments fields), rest)
    | _ => none

/-- Reads a key with its value. -/
def field? (fuel : Nat) (s : List Char) : Option ((List String × Document) × List Char) :=
  match fuel with
  | 0 => none
  | fuel + 1 => do
    let (key, rest) ← key? (s.length + 1) s
    match rest with
    | '=' :: rest => do
      let (value, rest) ← value? fuel (skipSpaces rest)
      return ((key, value), rest)
    | _ => none

end

/-- The tables that have been read, and the header that the next lines stand under. -/
structure Sheet where
  /-- The items of the whole text. -/
  fields : Fields := []
  header : List String := []
  deriving Inhabited

/-- Gives a value to a key of the table under the last header. -/
def Sheet.assign? (sheet : Sheet) (key : List String) (value : Document) : Option Sheet := do
  let fields ← update? false (fun _ fields => Toml.assign? key value fields) sheet.header .header
    sheet.fields
  return { sheet with fields }

/-- Reads a header up to its closing brackets, which are as many as the opening ones. -/
def header? (closing : List Char) (s : List Char) : Option (List String × List Char) := do
  let (key, rest) ← key? (s.length + 1) s
  if rest.take closing.length = closing then some (key, rest.drop closing.length) else none

/-- Reads a line: a header or a key with its value. -/
def Sheet.line? (sheet : Sheet) (s : List Char) : Option (Sheet × List Char) :=
  match s with
  | '[' :: '[' :: rest => do
    let (header, rest) ← header? [']', ']'] rest
    let fields ← addTable? header sheet.fields
    return ({ fields, header }, rest)
  | '[' :: rest => do
    let (header, rest) ← header? [']'] rest
    let fields ← defineTable? header sheet.fields
    return ({ fields, header }, rest)
  | _ => do
    let ((key, value), rest) ← field? (2 * s.length + 2) s
    return (← sheet.assign? key value, rest)

/-- Reads all lines. -/
def Sheet.read? (sheet : Sheet) (s : List Char) : (fuel : Nat) → Option Sheet
  | 0 => none
  | fuel + 1 =>
    match skipLines (s.length + 1) s with
    | [] => some sheet
    | s => do
      let (sheet, rest) ← sheet.line? s
      sheet.read? (← afterLine? rest) fuel

/-- Reads the document of a text, if it is one. -/
def read? (s : String) : Option Document :=
  let s := s.toList
  let s := if s.head? = some '\uFEFF' then s.drop 1 else s
  (Sheet.read? {} s (s.length + 1)).map fun sheet => .mapping (fieldDocuments sheet.fields)

end ConventionalRelease.Toml
