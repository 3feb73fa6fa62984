/-!
# Tables of code points

A table is a list of closed ranges of code points in ascending order. The character classes of this
folder are read off such tables; below 128 each class says its members itself, so that questions on
ASCII text never reach a table.

The tables, and that of case folding, are those of Unicode 14. A character that was assigned later
counts as unassigned.
-/

namespace ConventionalRelease.Unicode

/-- Closed ranges of code points. -/
abbrev Ranges := List (Nat × Nat)

/-- Whether the code point of `c` lies in one of the ranges. -/
def Ranges.contains (table : Ranges) (c : Char) : Bool :=
  table.any fun range => range.1 ≤ c.toNat && c.toNat ≤ range.2

end ConventionalRelease.Unicode
