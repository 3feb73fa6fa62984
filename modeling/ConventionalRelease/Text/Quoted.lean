import ConventionalRelease.Unicode.Printable

/-!
# Quoted characters

A character in a message stands in single quotes. A quote, a backslash and the common controls are
written with a backslash; a character without a shape of its own, or one that would attach to the
quote before it, is written by its code point.
-/

namespace ConventionalRelease.Text

/-- The digits of `n` in base sixteen, in lower case. -/
def hex (n : Nat) : List Char :=
  Nat.toDigits 16 n

/-- The character written by its code point in braces. -/
def codePoint (c : Char) : List Char :=
  ['\\', 'u', '\x7b'] ++ hex c.toNat ++ ['\x7d']

/-- What stands between the quotes for `c`. -/
def escapeChar (c : Char) : List Char :=
  match c with
  | '\x00' => ['\\', '0']
  | '\t' => ['\\', 't']
  | '\n' => ['\\', 'n']
  | '\r' => ['\\', 'r']
  | '\'' => ['\\', '\'']
  | '\\' => ['\\', '\\']
  | c => if Unicode.isExtender c || Unicode.isHidden c then codePoint c else [c]

/-- The character in single quotes. -/
def quoteChar (c : Char) : String :=
  String.ofList (['\''] ++ escapeChar c ++ ['\''])

end ConventionalRelease.Text
