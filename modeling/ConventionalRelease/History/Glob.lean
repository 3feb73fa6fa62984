/-!
# Globs

A glob is matched against a whole name, byte by byte: `*` stands for any bytes, `?` for one, a class
in brackets for one of those it lists, or for one that it does not list. It may list bytes by the
name of a class, as in `[[:digit:]]`. A slash is a byte like others. A glob that breaks off within a
class or after a backslash, or that names an unknown class, matches nothing.
-/

namespace ConventionalRelease

/-- A part of a glob. -/
inductive GlobItem where
  | anyBytes
  | anyByte
  /-- A byte in one of the ranges, or in none of them. -/
  | inClass (negated : Bool) (ranges : List (UInt8 × UInt8))
  deriving DecidableEq, Repr

namespace GlobItem

/-- Just the byte. -/
def only (b : UInt8) : GlobItem := inClass false [(b, b)]

/-- Whether the item stands for the byte. -/
def accepts : GlobItem → UInt8 → Bool
  | anyBytes, _ => true
  | anyByte, _ => true
  | inClass negated ranges, b => (ranges.any fun (lo, hi) => lo ≤ b && b ≤ hi) != negated

end GlobItem

/-- The parts of a glob. -/
abbrev Glob := List GlobItem

namespace Glob

/-- The byte of an ASCII character. -/
def byte (c : Char) : UInt8 := c.toNat.toUInt8

/-- The characters of the classes that have names, as ranges. -/
def namedClasses : List (String × List (Char × Char)) :=
  let digits := ('0', '9')
  let upper := ('A', 'Z')
  let lower := ('a', 'z')
  let space := (' ', ' ')
  [("alnum", [digits, upper, lower]), ("alpha", [upper, lower]), ("blank", [('\t', '\t'), space]),
    ("cntrl", [('\x00', '\x1f'), ('\x7f', '\x7f')]), ("digit", [digits]), ("graph", [('!', '~')]),
    ("lower", [lower]), ("print", [(' ', '~')]),
    ("punct", [('!', '/'), (':', '@'), ('[', '\x60'), ('\x7b', '~')]),
    ("space", [('\t', '\r'), space]), ("upper", [upper]),
    ("xdigit", [digits, ('A', 'F'), ('a', 'f')])]

/-- The ranges of the class with the name. -/
def namedRanges? (name : List UInt8) : Option (List (UInt8 × UInt8)) :=
  (namedClasses.find? (·.1.toList.map byte = name)).map fun (_, ranges) =>
    ranges.map fun (lo, hi) => (byte lo, byte hi)

/-- Reads what begins with `b` in a class, up to where its next part begins: its ranges, the byte
that a hyphen may follow next, and what is left. A hyphen between two bytes stands for the bytes
between them, unless the first of them ends a range. The name of a class stands between colons in
brackets of its own. -/
def readPart? (before : Option UInt8) (b : UInt8) (rest : List UInt8) :
    Option (List (UInt8 × UInt8) × Option UInt8 × List UInt8) :=
  let single := some ([(b, b)], some b, rest)
  if b = byte '\\' then
    match rest with
    | [] => none
    | c :: rest => some ([(c, c)], some c, rest)
  else if b = byte '-' then
    match before, rest with
    | some lo, c :: more =>
      if c = byte ']' then single
      else if c = byte '\\' then
        match more with
        | [] => none
        | hi :: more => some ([(lo, hi)], none, more)
      else some ([(lo, c)], none, more)
    | _, _ => single
  else if b = byte '[' && rest.head? = some (byte ':') then
    let name := (rest.drop 1).takeWhile (· ≠ byte ']')
    let more := (rest.drop 1).drop name.length
    if more.isEmpty then none
    else if name.getLast? = some (byte ':') then
      (namedRanges? name.dropLast).map (·, none, more.drop 1)
    else single
  else single

/-- Reads the ranges of a class up to its closing bracket, which cannot come first. -/
def readClass? : (fuel : Nat) → (first : Bool) → (before : Option UInt8) → List UInt8 →
    Option (List (UInt8 × UInt8) × List UInt8)
  | 0, _, _, _ => none
  | _, _, _, [] => none
  | fuel + 1, first, before, b :: rest =>
    if b = byte ']' && !first then some ([], rest)
    else do
      let (ranges, before, rest) ← readPart? before b rest
      let (others, rest) ← readClass? fuel false before rest
      return (ranges ++ others, rest)

/-- Reads a class after its opening bracket. -/
def readBrackets? (s : List UInt8) : Option (GlobItem × List UInt8) := do
  let negated := s.head?.any fun b => b = byte '!' || b = byte '^'
  let s := if negated then s.drop 1 else s
  let (ranges, rest) ← readClass? (s.length + 1) true none s
  return (.inClass negated ranges, rest)

/-- Reads the parts of a glob. -/
def readFrom? : (fuel : Nat) → List UInt8 → Option Glob
  | 0, _ => none
  | _ + 1, [] => some []
  | fuel + 1, b :: rest =>
    if b = byte '*' then (.anyBytes :: ·) <$> readFrom? fuel rest
    else if b = byte '?' then (.anyByte :: ·) <$> readFrom? fuel rest
    else if b = byte '[' then do
      let (item, rest) ← readBrackets? rest
      return item :: (← readFrom? fuel rest)
    else if b = byte '\\' then
      match rest with
      | [] => none
      | b :: rest => (.only b :: ·) <$> readFrom? fuel rest
    else (.only b :: ·) <$> readFrom? fuel rest

/-- Reads a glob. -/
def read? (s : List UInt8) : Option Glob :=
  readFrom? (s.length + 1) s

/-- Whether what is left after some bytes at the front satisfies `p`. -/
def afterSome (p : List UInt8 → Bool) : List UInt8 → Bool
  | [] => p []
  | b :: rest => p (b :: rest) || afterSome p rest

/-- Whether the glob matches the whole text. -/
def accepts : Glob → List UInt8 → Bool
  | [], s => s.isEmpty
  | .anyBytes :: glob, s => afterSome (accepts glob) s
  | _ :: _, [] => false
  | item :: glob, b :: s => item.accepts b && accepts glob s

/-- Whether a name matches a written glob. -/
def admits (pattern name : String) : Bool :=
  (read? pattern.toUTF8.toList).any (·.accepts name.toUTF8.toList)

end Glob

end ConventionalRelease
