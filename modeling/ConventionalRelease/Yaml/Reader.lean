import ConventionalRelease.Yaml.Plain
import ConventionalRelease.Yaml.Token

/-!
# Documents in YAML

The tokens of a text are read as a document. A text holds one document; an empty one stands for no
value. Keys are scalars, taken as they are written, and the last value of a key counts. Documents
may be nested to any depth. Anchors, aliases and tags are not read: a text with one of them is no
document here, although YAML gives it a meaning.
-/

namespace ConventionalRelease.Yaml

/-- A document and the tokens after it. -/
abbrev Reading := Option (Document × List Token)

/-- Whether a node is missing before the tokens, when one of the given tokens or none comes next. -/
def isMissing (stops : List Token) (tokens : List Token) : Bool :=
  match tokens with
  | [] => true
  | t :: _ => t ∈ stops

/-- Reads a key, which is a scalar. Where it is missing, it is empty. -/
def key? (stops : List Token) (tokens : List Token) : Option (String × List Token) :=
  if isMissing stops tokens then some ("", tokens)
  else match tokens with
    | .scalar _ text :: rest => some (String.ofList text, rest)
    | _ => none

/-- The style of the surroundings of a node. -/
inductive Style where
  | flow
  | block
  /-- In block style as the value of a mapping, where the entries of a sequence may stand at the
  column of the keys. -/
  | blockValue
  deriving DecidableEq

mutual

/-- Reads a node. -/
def node? (fuel : Nat) (style : Style) (tokens : List Token) : Reading :=
  match fuel with
  | 0 => none
  | fuel + 1 =>
    match tokens with
    | .scalar plain text :: rest =>
      if plain then (plainDocument? text).map (·, rest)
      else some (.text (String.ofList text), rest)
    | .flowSequenceStart :: rest => flowSequence? fuel true [] rest
    | .flowMappingStart :: rest => flowMapping? fuel true [] rest
    | .sequenceStart :: rest => if style = .flow then none else sequence? fuel [] rest
    | .mappingStart :: rest => if style = .flow then none else mapping? fuel [] rest
    | .entry :: _ => if style = .blockValue then entries? fuel [] tokens else none
    | _ => none

/-- Reads a node, or no value where it is missing. -/
def optionalNode? (fuel : Nat) (style : Style) (stops : List Token) (tokens : List Token) :
    Reading :=
  match fuel with
  | 0 => none
  | fuel + 1 => if isMissing stops tokens then some (.null, tokens) else node? fuel style tokens

/-- Reads the value of a key, or no value. -/
def valueAfterKey? (fuel : Nat) (style : Style) (stops : List Token) (tokens : List Token) :
    Reading :=
  match fuel with
  | 0 => none
  | fuel + 1 =>
    match tokens with
    | .value :: rest => optionalNode? fuel style stops rest
    | _ => some (.null, tokens)

/-- Reads the entries of a sequence in block style, after `items`, up to its end. -/
def sequence? (fuel : Nat) (items : List Document) (tokens : List Token) : Reading :=
  match fuel with
  | 0 => none
  | fuel + 1 =>
    match tokens with
    | .entry :: rest => do
      let (item, rest) ← optionalNode? fuel .block [.entry, .blockEnd] rest
      sequence? fuel (items ++ [item]) rest
    | .blockEnd :: rest => some (.list items, rest)
    | _ => none

/-- Reads the entries of a sequence that stands at the column of the keys around it, after
`items`. -/
def entries? (fuel : Nat) (items : List Document) (tokens : List Token) : Reading :=
  match fuel with
  | 0 => none
  | fuel + 1 =>
    match tokens with
    | .entry :: rest => do
      let (item, rest) ← optionalNode? fuel .block [.entry, .key, .value, .blockEnd] rest
      entries? fuel (items ++ [item]) rest
    | _ => some (.list items, tokens)

/-- Reads the entries of a mapping in block style, after `fields`, up to its end. -/
def mapping? (fuel : Nat) (fields : List (String × Document)) (tokens : List Token) : Reading :=
  match fuel with
  | 0 => none
  | fuel + 1 =>
    let stops : List Token := [.key, .value, .blockEnd]
    match tokens with
    | .key :: rest => do
      let (key, rest) ← key? stops rest
      let (value, rest) ← valueAfterKey? fuel .blockValue stops rest
      mapping? fuel (Document.put key value fields) rest
    | .blockEnd :: rest => some (.mapping fields, rest)
    | _ => none

/-- Reads an entry of a sequence in brackets: a node, or a single pair of key and value. -/
def flowEntry? (fuel : Nat) (tokens : List Token) : Reading :=
  match fuel with
  | 0 => none
  | fuel + 1 =>
    match tokens with
    | .key :: rest => do
      let (key, rest) ← key? [.value, .comma, .flowSequenceEnd] rest
      let (value, rest) ← valueAfterKey? fuel .flow [.comma, .flowSequenceEnd] rest
      return (.mapping [(key, value)], rest)
    | _ => node? fuel .flow tokens

/-- Reads the entries of a sequence in brackets, after `items`, up to its end. -/
def flowSequence? (fuel : Nat) (first : Bool) (items : List Document) (tokens : List Token) :
    Reading :=
  match fuel with
  | 0 => none
  | fuel + 1 =>
    match tokens with
    | .flowSequenceEnd :: rest => some (.list items, rest)
    | .comma :: rest =>
      if first then none
      else if rest.head? = some .flowSequenceEnd then flowSequence? fuel false items rest
      else do
        let (item, rest) ← flowEntry? fuel rest
        flowSequence? fuel false (items ++ [item]) rest
    | _ =>
      if first then do
        let (item, rest) ← flowEntry? fuel tokens
        flowSequence? fuel false (items ++ [item]) rest
      else none

/-- Reads an entry of a mapping in brackets: a key with its value, or a key alone. -/
def flowField? (fuel : Nat) (tokens : List Token) : Option ((String × Document) × List Token) :=
  match fuel with
  | 0 => none
  | fuel + 1 =>
    match tokens with
    | .key :: rest => do
      let (key, rest) ← key? [.value, .comma, .flowMappingEnd] rest
      let (value, rest) ← valueAfterKey? fuel .flow [.comma, .flowMappingEnd] rest
      return ((key, value), rest)
    | _ => do
      let (key, rest) ← key? [] tokens
      return ((key, .null), rest)

/-- Reads the entries of a mapping in brackets, after `fields`, up to its end. -/
def flowMapping? (fuel : Nat) (first : Bool) (fields : List (String × Document))
    (tokens : List Token) :
    Reading :=
  match fuel with
  | 0 => none
  | fuel + 1 =>
    match tokens with
    | .flowMappingEnd :: rest => some (.mapping fields, rest)
    | .comma :: rest =>
      if first then none
      else if rest.head? = some .flowMappingEnd then flowMapping? fuel false fields rest
      else do
        let ((key, value), rest) ← flowField? fuel rest
        flowMapping? fuel false (Document.put key value fields) rest
    | _ =>
      if first then do
        let ((key, value), rest) ← flowField? fuel tokens
        flowMapping? fuel false (Document.put key value fields) rest
      else none

end

/-- Reads the one document of a text from its tokens. -/
def ofTokens? (tokens : List Token) : Option Document := do
  let fuel := 3 * tokens.length + 3
  let (document, rest) ← match tokens with
    | [] => some (.null, [])
    | .edition :: .documentStart :: rest | .documentStart :: rest =>
      optionalNode? fuel .block [.edition, .documentStart, .documentEnd] rest
    | _ => node? fuel .block tokens
  if rest.all (· = .documentEnd) then some document else none

/-- Reads the document of a text, if there is one. -/
def read? (s : String) : Option Document :=
  (Token.readAll? s.toList).bind ofTokens?

end ConventionalRelease.Yaml
