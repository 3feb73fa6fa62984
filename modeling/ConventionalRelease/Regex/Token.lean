import ConventionalRelease.Regex.Basic

/-!
# Tokens of the pattern language

A pattern is written as a text. `Token.ofText` cuts it into tokens: characters that stand for
themselves, sets, anchors, parentheses, bars, repetitions and changes of flags. What a token means
may depend on the flags in force where it stands, so that is settled later, in `Pattern.parse`.

A reader takes the text after the characters it has recognised and returns what it read with the
number of further characters it used.

Some of the language is left out, and a text that uses it is no pattern here: the classes of Unicode
that `\p` and `\P` name, the flags `x` for patterns with blanks and comments and `R` for other ends
of lines, and the edges of words that are written in braces, such as `\b{start}`.
-/

namespace ConventionalRelease

/-- Why a text is not a pattern. -/
inductive Regex.Error where
  /-- A parenthesis is not closed. -/
  | groupUnclosed
  /-- A parenthesis is closed that was not opened. -/
  | groupUnopened
  /-- A group has no name, a malformed name or the name of another group. -/
  | groupName
  /-- Brackets are not closed. -/
  | setUnclosed
  /-- A range ends before it starts, or has an end that is no character. -/
  | setRange
  /-- A set holds something that is no character. -/
  | setItem
  /-- There is nothing to repeat. -/
  | nothingToRepeat
  /-- The bounds of a repetition are missing, malformed or out of order. -/
  | repeatBounds
  /-- A backslash is followed by nothing, or by a character that it gives no meaning. -/
  | escape
  /-- A flag is unknown, or given twice. -/
  | flag
  /-- The text before or after a place cannot be looked at. -/
  | lookAround
  deriving DecidableEq, Repr, Inhabited

namespace Regex

/-- A way to read a pattern that can be switched on and off. -/
inductive Flag where
  /-- Letters match in either case. -/
  | caseless
  /-- Anchors match at lines. -/
  | multiLine
  /-- The dot matches a line feed. -/
  | dotAll
  /-- Repetitions are lazy unless marked. -/
  | swapGreed
  /-- Sets are those of Unicode, as they are anyway. -/
  | unicode
  deriving DecidableEq, Repr, Inhabited

/-- What an open parenthesis starts. -/
inductive Opening where
  /-- A group that is recorded, perhaps under a name. -/
  | capture (name : Option String)
  /-- A group that is not recorded, with its changes of flags. -/
  | plain (changes : List (Flag × Bool))
  deriving DecidableEq, Repr, Inhabited

/-- A token of the pattern language. -/
inductive Token where
  /-- A character that stands for itself. -/
  | char (c : Char)
  /-- A character of a set. -/
  | set (s : CharSet)
  | dot
  /-- The start of the text or of a line. -/
  | start
  /-- The end of the text or of a line. -/
  | stop
  /-- An anchor that no flag changes. -/
  | anchor (a : Anchor)
  | opening (o : Opening)
  | closing
  /-- The bar between alternatives. -/
  | bar
  /-- A repetition of what stands before it; a marked one turns greed round. -/
  | repetition (min : Nat) (max : Option Nat) (marked : Bool)
  /-- A change of flags up to the end of the group. -/
  | flags (changes : List (Flag × Bool))
  deriving DecidableEq, Repr, Inhabited

/-- The characters that a pattern does not take for themselves everywhere. -/
def isMeta (c : Char) : Bool :=
  c ∈ ['\\', '.', '+', '*', '?', '(', ')', '|', '[', ']', '\x7b', '\x7d', '^', '$', '#',
    '&', '-', '~']

/-- The text as a pattern that matches just that text. -/
def escape (s : List Char) : List Char :=
  s.flatMap fun c => if isMeta c then ['\\', c] else [c]

/-- The number that a list of digits writes in the base, if each is a digit of the base. -/
def numeral? (base : Nat) (digits : List Char) : Option Nat :=
  if digits.isEmpty then none else
    digits.foldl (fun total c => do
      let value ← if c.isDigit then some (c.toNat - '0'.toNat)
        else if c.toNat - 'a'.toNat < 6 && 'a' ≤ c then some (c.toNat - 'a'.toNat + 10)
        else if c.toNat - 'A'.toNat < 6 && 'A' ≤ c then some (c.toNat - 'A'.toNat + 10)
        else none
      if value < base then some ((← total) * base + value) else none) (some 0)

/-- The character with the code point, if there is one. -/
def scalar? (n : Nat) : Option Char :=
  if h : n.isValidChar then some (Char.ofNatAux n h) else none

/-- Reads a code point of `width` digits, or of any number of digits in braces. -/
def readCodePoint (width : Nat) (rest : List Char) : Except Error (Char × Nat) :=
  let found := match rest with
    | '\x7b' :: more =>
      let digits := more.takeWhile (· != '\x7d')
      if digits.length < more.length then some (digits, digits.length + 2) else none
    | _ => if width ≤ rest.length then some (rest.take width, width) else none
  match found with
  | none => throw .escape
  | some (digits, used) =>
    match numeral? 16 digits >>= scalar? with
    | some c => pure (c, used)
    | none => throw .escape

/-- Reads what stands after a backslash. -/
def readEscape : List Char → Except Error (Token × Nat)
  | [] => throw .escape
  | 'd' :: _ => pure (.set .digit, 1)
  | 'D' :: _ => pure (.set (.compl .digit), 1)
  | 'w' :: _ => pure (.set .word, 1)
  | 'W' :: _ => pure (.set (.compl .word), 1)
  | 's' :: _ => pure (.set .blank, 1)
  | 'S' :: _ => pure (.set (.compl .blank), 1)
  | 'a' :: _ => pure (.char '\x07', 1)
  | 'f' :: _ => pure (.char '\x0c', 1)
  | 't' :: _ => pure (.char '\t', 1)
  | 'n' :: _ => pure (.char '\n', 1)
  | 'r' :: _ => pure (.char '\r', 1)
  | 'v' :: _ => pure (.char '\x0b', 1)
  | 'A' :: _ => pure (.anchor .textStart, 1)
  | 'z' :: _ => pure (.anchor .textEnd, 1)
  | 'b' :: _ => pure (.anchor .wordEdge, 1)
  | 'B' :: _ => pure (.anchor .noWordEdge, 1)
  | '<' :: _ => pure (.anchor .wordStart, 1)
  | '>' :: _ => pure (.anchor .wordEnd, 1)
  | 'x' :: rest => do let (c, used) ← readCodePoint 2 rest; return (.char c, used + 1)
  | 'u' :: rest => do let (c, used) ← readCodePoint 4 rest; return (.char c, used + 1)
  | 'U' :: rest => do let (c, used) ← readCodePoint 8 rest; return (.char c, used + 1)
  | c :: _ =>
    if c.toNat < 128 && !c.isAlphanum then pure (.char c, 1) else throw .escape

/-! ## Sets in brackets -/

/-- The union of the sets of a list. -/
def unionOf : List CharSet → CharSet
  | [] => .none
  | [s] => s
  | s :: rest => .union s (unionOf rest)

/-- The classes that brackets name between colons. -/
def namedSet? (name : String) : Option CharSet :=
  let upper := CharSet.range 'A' 'Z'
  let lower := CharSet.range 'a' 'z'
  let digits := CharSet.range '0' '9'
  match name with
  | "alnum" => some (unionOf [digits, upper, lower])
  | "alpha" => some (.union upper lower)
  | "ascii" => some (.range '\x00' '\x7f')
  | "blank" => some (.union (.single '\t') (.single ' '))
  | "cntrl" => some (.union (.range '\x00' '\x1f') (.single '\x7f'))
  | "digit" => some digits
  | "graph" => some (.range '!' '~')
  | "lower" => some lower
  | "print" => some (.range ' ' '~')
  | "punct" => some (unionOf [.range '!' '/', .range ':' '@', .range '[' '\x60', .range '\x7b' '~'])
  | "space" => some (.union (.range '\t' '\r') (.single ' '))
  | "upper" => some upper
  | "word" => some (unionOf [digits, upper, lower, .single '_'])
  | "xdigit" => some (unionOf [digits, .range 'A' 'F', .range 'a' 'f'])
  | _ => none

/-- Reads a class named between colons, after its open bracket. -/
def readNamedSet (rest : List Char) : Option (CharSet × Nat) :=
  match rest with
  | ':' :: more =>
    let (negated, more, before) := match more with
      | '^' :: tail => (true, tail, 2)
      | _ => (false, more, 1)
    let name := more.takeWhile (· != ':')
    match more.drop name.length with
    | ':' :: ']' :: _ => do
      let s ← namedSet? (String.ofList name)
      return (if negated then .compl s else s, before + name.length + 2)
    | _ => none
  | _ => none

/-- Reads one item of a set: a character or a class. -/
def readSetItem : List Char → Except Error (Token × Nat)
  | [] => throw .setUnclosed
  | '\\' :: rest => do
    match ← readEscape rest with
    | (.char c, used) => return (.char c, used + 1)
    | (.set s, used) => return (.set s, used + 1)
    | _ => throw .setItem
  | c :: _ => pure (.char c, 1)

/-- How two sets in brackets are joined by an operator between them. -/
inductive SetOperator where
  /-- What is in both. -/
  | inter
  /-- What is in the first and not in the second. -/
  | diff
  /-- What is in exactly one. -/
  | symmDiff
  deriving DecidableEq, Repr, Inhabited

/-- The set that the operator makes of two. -/
def SetOperator.apply (op : SetOperator) (s t : CharSet) : CharSet :=
  match op with
  | .inter => .inter s t
  | .diff => .inter s (.compl t)
  | .symmDiff => .inter (.union s t) (.compl (.inter s t))

/-- Joins what was read so far to the operand before it. -/
def joinOperand (pending : Option (CharSet × SetOperator)) (items : List CharSet) : CharSet :=
  match pending with
  | none => unionOf items.reverse
  | some (s, op) => op.apply s (unionOf items.reverse)

mutual

/-- Reads a set after its open bracket. The first argument bounds the number of steps. -/
def readSet : Nat → List Char → Except Error (CharSet × Nat)
  | 0, _ => throw .setUnclosed
  | n + 1, rest => do
    let (negated, more) := match rest with
      | '^' :: tail => (true, tail)
      | _ => (false, rest)
    let hyphens := more.takeWhile (· == '-')
    let more := more.drop hyphens.length
    let (items, more) := match hyphens, more with
      | [], ']' :: tail => ([CharSet.single ']'], tail)
      | _, _ => (hyphens.map CharSet.single, more)
    let (s, used) ← readSetItems n none items more
    return (.bracket negated s, rest.length - more.length + used)

/-- Reads the items of a set up to its closed bracket. -/
def readSetItems : Nat → Option (CharSet × SetOperator) → List CharSet → List Char →
    Except Error (CharSet × Nat)
  | 0, _, _, _ => throw .setUnclosed
  | n + 1, pending, items, rest =>
    let operator (op : SetOperator) (more : List Char) : Except Error (CharSet × Nat) := do
      let (s, used) ← readSetItems n (some (joinOperand pending items, op)) [] more
      return (s, used + 2)
    match rest with
    | [] => throw .setUnclosed
    | ']' :: _ => pure (joinOperand pending items, 1)
    | '&' :: '&' :: more => operator .inter more
    | '-' :: '-' :: more => operator .diff more
    | '~' :: '~' :: more => operator .symmDiff more
    | '[' :: more => do
      let (s, used) ← match readNamedSet more with
        | some found => pure found
        | none => readSet n more
      let (t, used') ← readSetItems n pending (s :: items) (more.drop used)
      return (t, 1 + used + used')
    | _ => do
      let (first, used) ← readSetItem rest
      let more := rest.drop used
      let isRange := match more with
        | '-' :: next :: _ => next != ']' && next != '-'
        | ['-'] => true
        | _ => false
      let (item, used) ← if isRange then do
          let (last, used') ← readSetItem (more.drop 1)
          match first, last with
          | .char lo, .char hi =>
            if lo ≤ hi then pure (CharSet.range lo hi, used + 1 + used') else throw .setRange
          | _, _ => throw .setRange
        else match first with
          | .char c => pure (CharSet.single c, used)
          | .set s => pure (s, used)
          | _ => throw .setItem
      let (t, used') ← readSetItems n pending (item :: items) (rest.drop used)
      return (t, used + used')

end

/-! ## Groups, flags and repetitions -/

/-- Whether the character may stand in the name of a group, or at its start. -/
def isNameChar (first : Bool) (c : Char) : Bool :=
  c == '_' || (Unicode.isWord c && !(first && Unicode.isDigit c)) ||
    (!first && (c == '.' || c == '[' || c == ']'))

/-- Reads the name of a group up to its closing bracket. -/
def readName (rest : List Char) : Except Error (String × Nat) :=
  let name := rest.takeWhile (· != '>')
  if name.length = rest.length then
    throw .groupName
  else match name with
    | [] => throw .groupName
    | c :: more =>
      if isNameChar true c && more.all (isNameChar false) then
        pure (String.ofList name, name.length + 1)
      else
        throw .groupName

/-- The flag that a letter stands for. -/
def flag? : Char → Option Flag
  | 'i' => some .caseless
  | 'm' => some .multiLine
  | 's' => some .dotAll
  | 'U' => some .swapGreed
  | 'u' => some .unicode
  | _ => none

/-- Reads letters of flags: those before a hyphen are switched on and those after it off. -/
def readFlags (seen : List (Flag × Bool)) (on : Bool) :
    List Char → Except Error (List (Flag × Bool))
  | [] => if on || !(seen.head?.all (·.2)) then pure seen.reverse else throw .flag
  | '-' :: rest => if on then readFlags seen false rest else throw .flag
  | c :: rest =>
    match flag? c with
    | none => throw .flag
    | some f => if seen.any (·.1 == f) then throw .flag else readFlags ((f, on) :: seen) on rest

/-- Reads what stands after an open parenthesis. -/
def readOpening : List Char → Except Error (Token × Nat)
  | '?' :: '=' :: _ | '?' :: '!' :: _ | '?' :: '<' :: '=' :: _ | '?' :: '<' :: '!' :: _ =>
    throw .lookAround
  | '?' :: 'P' :: '<' :: rest => do
    let (name, used) ← readName rest
    return (.opening (.capture (some name)), used + 3)
  | '?' :: '<' :: rest => do
    let (name, used) ← readName rest
    return (.opening (.capture (some name)), used + 2)
  | '?' :: rest => do
    let letters := rest.takeWhile fun c => c != ':' && c != ')'
    match rest.drop letters.length with
    | ':' :: _ => return (.opening (.plain (← readFlags [] true letters)), letters.length + 2)
    | ')' :: _ =>
      if letters.isEmpty then throw .nothingToRepeat
      return (.flags (← readFlags [] true letters), letters.length + 2)
    | _ => throw .groupUnclosed
  | _ => pure (.opening (.capture none), 0)

/-- A repetition with the mark that may follow it. -/
def readRepetition (min : Nat) (max : Option Nat) (used : Nat) : List Char → Token × Nat
  | '?' :: _ => (.repetition min max true, used + 1)
  | _ => (.repetition min max false, used)

/-- Reads a bound: digits, with blanks around them. -/
def readBound (s : List Char) : Except Error Nat :=
  match numeral? 10 (Text.trim s) with
  | some n => if n < UInt32.size then pure n else throw .repeatBounds
  | none => throw .repeatBounds

/-- Reads the bounds of a repetition after an open brace. -/
def readBounds (rest : List Char) : Except Error (Token × Nat) := do
  let inside := rest.takeWhile (· != '\x7d')
  if inside.length = rest.length then throw .repeatBounds
  let low := inside.takeWhile (· != ',')
  let min ← readBound low
  let max ← match inside.drop low.length with
    | [] => pure (some min)
    | [_] => pure none
    | _ :: high => do pure (some (← readBound high))
  if max.any (· < min) then throw .repeatBounds
  return readRepetition min max (inside.length + 1) (rest.drop (inside.length + 1))

namespace Token

/-- Reads the token that starts with `c`. -/
def read (c : Char) (rest : List Char) : Except Error (Token × Nat) :=
  match c with
  | '\\' => readEscape rest
  | '.' => pure (dot, 0)
  | '^' => pure (start, 0)
  | '$' => pure (stop, 0)
  | '|' => pure (bar, 0)
  | ')' => pure (closing, 0)
  | '(' => readOpening rest
  | '[' => do let (s, used) ← readSet (2 * rest.length + 2) rest; return (set s, used)
  | '*' => pure (readRepetition 0 none 0 rest)
  | '+' => pure (readRepetition 1 none 0 rest)
  | '?' => pure (readRepetition 0 (some 1) 0 rest)
  | '\x7b' => readBounds rest
  | c => pure (char c, 0)

/-- The tokens of a text whose first `skip` characters belong to a token already read. -/
def ofTextFrom : Nat → List Char → Except Error (List Token)
  | _, [] => pure []
  | skip + 1, _ :: rest => ofTextFrom skip rest
  | 0, c :: rest => do
    let (token, used) ← read c rest
    return token :: (← ofTextFrom used rest)

/-- The tokens of a text. -/
def ofText (s : List Char) : Except Error (List Token) :=
  ofTextFrom 0 s

end Token

end Regex

end ConventionalRelease
