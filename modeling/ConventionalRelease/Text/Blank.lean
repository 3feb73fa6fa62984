/-!
# Blanks

The white space characters of Unicode, and texts with the blanks at their ends removed.
-/

namespace ConventionalRelease.Text

/-- A white space character: the blank controls, the space, and the spaces and separators beyond
ASCII. -/
def isBlank (c : Char) : Bool :=
  let n := c.toNat
  (9 ≤ n && n ≤ 13) || n == 0x20 || n == 0x85 || n == 0xA0 || n == 0x1680 ||
    (0x2000 ≤ n && n ≤ 0x200A) || n == 0x2028 || n == 0x2029 || n == 0x202F || n == 0x205F ||
    n == 0x3000

/-- A white space character of ASCII. -/
def isAsciiBlank (c : Char) : Bool :=
  let n := c.toNat
  (9 ≤ n && n ≤ 13) || n == 0x20

/-- The text without the characters at its end that satisfy `p`. -/
def dropEndWhile (p : Char → Bool) (s : List Char) : List Char :=
  (s.reverse.dropWhile p).reverse

/-- The text without the characters at its two ends that satisfy `p`. -/
def dropAround (p : Char → Bool) (s : List Char) : List Char :=
  dropEndWhile p (s.dropWhile p)

/-- The text without blanks at its end. -/
def trimEnd (s : List Char) : List Char :=
  dropEndWhile isBlank s

/-- The text without blanks at its two ends. -/
def trim (s : List Char) : List Char :=
  dropAround isBlank s

end ConventionalRelease.Text
