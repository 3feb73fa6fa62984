import ConventionalRelease.Calendar.Date
import ConventionalRelease.Text.Numeral

/-!
# Keys and single values of a TOML text

Strings in their four forms, numbers, truth values and points in time, each read at the front of a
text together with what is left of it.
-/

namespace ConventionalRelease.Toml

/-- A space or a tab. -/
def isSpace (c : Char) : Bool :=
  c = ' ' || c = '\t'

/-- A character that a text may hold within a line: no control but the tab. -/
def isInLine (c : Char) : Bool :=
  c = '\t' || (0x20 ≤ c.toNat && c.toNat ≠ 0x7F)

/-- Skips spaces and tabs. -/
def skipSpaces (s : List Char) : List Char :=
  s.dropWhile isSpace

/-- What follows a line break, if one comes next. -/
def afterBreak? (s : List Char) : Option (List Char) :=
  match s with
  | '\n' :: rest => some rest
  | '\r' :: '\n' :: rest => some rest
  | _ => none

/-- Skips a comment. -/
def skipComment (s : List Char) : List Char :=
  match s with
  | '#' :: rest => rest.dropWhile isInLine
  | _ => s

/-- What follows the end of a line, before which blanks and a comment may stand. -/
def afterLine? (s : List Char) : Option (List Char) :=
  match skipComment (skipSpaces s) with
  | [] => some []
  | rest => afterBreak? rest

/-- Skips blanks, comments and line breaks. -/
def skipLines : (fuel : Nat) → List Char → List Char
  | 0, s => s
  | fuel + 1, s =>
    let rest := skipComment (skipSpaces s)
    match afterBreak? rest with
    | some rest => skipLines fuel rest
    | none => rest

/-! ## Strings -/

/-- The character that an escape of one letter stands for. -/
def escaped? (c : Char) : Option Char :=
  [('b', '\u0008'), ('t', '\t'), ('n', '\n'), ('f', '\u000C'), ('r', '\r'), ('"', '"'),
    ('\\', '\\')].lookup c

/-- Reads an escape after its backslash. -/
def escape? : List Char → Option (Char × List Char)
  | 'u' :: rest =>
    if rest.length < 4 then none else (characterOfHex? (rest.take 4)).map (·, rest.drop 4)
  | 'U' :: rest =>
    if rest.length < 8 then none else (characterOfHex? (rest.take 8)).map (·, rest.drop 8)
  | c :: rest => (escaped? c).map (·, rest)
  | [] => none

/-- Reads a string on one line up to its closing quote, after `text`. -/
def basicFrom? : (fuel : Nat) → (text : List Char) → List Char → Option (List Char × List Char)
  | 0, _, _ => none
  | _ + 1, _, [] => none
  | fuel + 1, text, c :: rest =>
    if c = '"' then some (text, rest)
    else if c = '\\' then do
      let (meaning, rest) ← escape? rest
      basicFrom? fuel (text ++ [meaning]) rest
    else if isInLine c then basicFrom? fuel (text ++ [c]) rest
    else none

/-- Reads a string on one line without escapes up to its closing quote. -/
def literal? (s : List Char) : Option (List Char × List Char) :=
  let text := s.takeWhile fun c => c ≠ '\'' && isInLine c
  match s.drop text.length with
  | '\'' :: rest => some (text, rest)
  | _ => none

/-- The greatest number of quotes in a row at the end of a string over several lines: two belong to
it. -/
def longestQuotes : Nat := 5

/-- Skips blanks and line breaks. -/
def skipBreaks (s : List Char) : List Char :=
  s.dropWhile fun c => isSpace c || c = '\n' || c = '\r'

/-- Whether nothing but blanks and whole line breaks are left out by `skipBreaks`. -/
def breaksAreWhole : List Char → Bool
  | '\r' :: '\n' :: rest => breaksAreWhole rest
  | '\r' :: _ => false
  | c :: rest => if isSpace c || c = '\n' then breaksAreWhole rest else true
  | [] => true

/-- Reads a string over several lines up to its closing quotes, after `text`. With escapes, a
backslash at the end of a line joins it to the next text. -/
def multilineFrom? (quote : Char) (escapes : Bool) :
    (fuel : Nat) → (text : List Char) → List Char → Option (List Char × List Char)
  | 0, _, _ => none
  | _ + 1, _, [] => none
  | fuel + 1, text, c :: rest =>
    if c = quote then
      let quotes := (c :: rest).takeWhile (· = quote)
      let rest := rest.drop (quotes.length - 1)
      if quotes.length < 3 then multilineFrom? quote escapes fuel (text ++ quotes) rest
      else if quotes.length ≤ longestQuotes then some (text ++ quotes.drop 3, rest)
      else none
    else if escapes && c = '\\' then
      match afterBreak? (skipSpaces rest) with
      | some next =>
        if breaksAreWhole next then multilineFrom? quote escapes fuel text (skipBreaks next)
        else none
      | none => do
        let (meaning, rest) ← escape? rest
        multilineFrom? quote escapes fuel (text ++ [meaning]) rest
    else
      match afterBreak? (c :: rest) with
      | some next => multilineFrom? quote escapes fuel (text ++ ['\n']) next
      | none => if isInLine c then multilineFrom? quote escapes fuel (text ++ [c]) rest else none

/-- Reads a string over several lines after its opening quotes; a line break right after them is
left out. -/
def multiline? (quote : Char) (escapes : Bool) (s : List Char) : Option (List Char × List Char) :=
  multilineFrom? quote escapes (s.length + 1) [] ((afterBreak? s).getD s)

/-- Reads a string in any of its forms. -/
def string? (s : List Char) : Option (List Char × List Char) :=
  match s with
  | '"' :: '"' :: '"' :: rest => multiline? '"' true rest
  | '"' :: rest => basicFrom? (rest.length + 1) [] rest
  | '\'' :: '\'' :: '\'' :: rest => multiline? '\'' false rest
  | '\'' :: rest => literal? rest
  | _ => none

/-! ## Keys -/

/-- A character of a key without quotes. -/
def isBare (c : Char) : Bool :=
  c.isAlphanum || c = '-' || c = '_'

/-- Reads one part of a key. -/
def simpleKey? (s : List Char) : Option (String × List Char) :=
  let found := match s with
    | '"' :: rest => basicFrom? (rest.length + 1) [] rest
    | '\'' :: rest => literal? rest
    | _ =>
      let bare := s.takeWhile isBare
      if bare.isEmpty then none else some (bare, s.drop bare.length)
  found.map fun (text, rest) => (String.ofList text, rest)

/-- Reads a key: parts with points between them, and the blanks around each. -/
def key? : (fuel : Nat) → List Char → Option (List String × List Char)
  | 0, _ => none
  | fuel + 1, s => do
    let (part, rest) ← simpleKey? (skipSpaces s)
    match skipSpaces rest with
    | '.' :: rest => do
      let (parts, rest) ← key? fuel rest
      return (part :: parts, rest)
    | rest => return ([part], rest)

/-! ## Numbers -/

/-- Digits with an underscore here and there between two of them; the digits alone. -/
def separated? : List Char → Option (List Char)
  | [] => none
  | [c] => if c = '_' then none else some [c]
  | c :: '_' :: rest => if c = '_' then none else (c :: ·) <$> separated? rest
  | c :: rest => if c = '_' then none else (c :: ·) <$> separated? rest

/-- The range of whole numbers, which have 64 bits with the sign. -/
def integerRange : Int × Int := (-9223372036854775808, 9223372036854775807)

/-- Whether the digits begin with a zero although there are several. -/
def hasNeedlessZero (digits : List Char) : Bool :=
  digits.head? = some '0' && 1 < digits.length

/-- Reads a whole number. Only decimal ones can have a sign. -/
def integer? (s : List Char) : Option Int :=
  let n := match s with
    | '0' :: 'x' :: rest => Int.ofNat <$> (separated? rest).bind (digits? 16)
    | '0' :: 'o' :: rest => Int.ofNat <$> (separated? rest).bind (digits? 8)
    | '0' :: 'b' :: rest => Int.ofNat <$> (separated? rest).bind (digits? 2)
    | _ => do
      let digits ← separated? (unsigned s)
      if hasNeedlessZero digits then none
      let n ← digits? 10 digits
      return if s.head? = some '-' then -(n : Int) else (n : Int)
  n.filter fun n => integerRange.1 ≤ n && n ≤ integerRange.2

/-- Reads a number with a fraction or an exponent: digits before and after the point, and without
needless zeros before it. -/
def decimal? (s : List Char) : Option Decimal := do
  let isPart (c : Char) := c.isDigit || c = '_'
  let s := unsigned s
  let whole ← separated? (s.takeWhile isPart)
  if hasNeedlessZero whole then none
  let rest := s.dropWhile isPart
  let (fraction, rest) ← match rest with
    | '.' :: rest =>
      (fun f => ('.' :: f, rest.dropWhile isPart)) <$> separated? (rest.takeWhile isPart)
    | _ => if rest.isEmpty then none else some ([], rest)
  let exponent ← match rest with
    | [] => some []
    | c :: rest => do
      if c ≠ 'e' && c ≠ 'E' then none
      let digits ← separated? (unsigned rest)
      pure (c :: if rest.head? = some '-' then '-' :: digits else digits)
  Decimal.read? (whole ++ fraction ++ exponent)

/-! ## Points in time -/

/-- Reads as many digits. -/
def fixed? (width : Nat) (s : List Char) : Option (Nat × List Char) :=
  let digits := s.take width
  if digits.length = width && digits.all Char.isDigit then
    some (Nat.ofDigitChars 10 digits 0, s.drop width)
  else none

/-- Reads one of two characters. -/
def mark? (a b : Char) : List Char → Option (List Char)
  | c :: rest => if c = a || c = b then some rest else none
  | [] => none

/-- Reads a day of the calendar. -/
def date? (s : List Char) : Option (Date × List Char) := do
  let (year, s) ← fixed? 4 s
  let s ← mark? '-' '-' s
  let (month, s) ← fixed? 2 s
  let s ← mark? '-' '-' s
  let (day, s) ← fixed? 2 s
  let date ← Date.ofParts? year month day
  return (date, s)

/-- Reads hours and minutes. -/
def clock? (s : List Char) : Option (List Char) := do
  let (hour, s) ← fixed? 2 s
  let s ← mark? ':' ':' s
  let (minute, s) ← fixed? 2 s
  if hour ≤ 23 && minute ≤ 59 then some s else none

/-- Reads a time of day with seconds, which may have a fraction. -/
def time? (s : List Char) : Option (List Char) := do
  let s ← clock? s
  let s ← mark? ':' ':' s
  let (second, s) ← fixed? 2 s
  if 60 < second then none
  match s with
  | '.' :: rest => if rest.head?.any Char.isDigit then some (rest.dropWhile Char.isDigit) else none
  | _ => some s

/-- Reads what a clock differs by from universal time, if it is said. -/
def offset? (s : List Char) : Option (List Char) :=
  match s with
  | c :: rest =>
    if c = 'Z' || c = 'z' then some rest
    else if c = '+' || c = '-' then clock? rest
    else some s
  | [] => some []

/-- Reads a day, a time of day or both; what is left. -/
def moment? (s : List Char) : Option (List Char) :=
  match date? s with
  | some (_, rest) =>
    match mark? 'T' 't' rest with
    | some next => (time? next).bind offset?
    | none =>
      match rest with
      | ' ' :: next => if next.head?.any Char.isDigit then (time? next).bind offset? else some rest
      | _ => some rest
  | none => time? s

end ConventionalRelease.Toml
