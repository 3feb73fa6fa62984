import ConventionalRelease.Text.Blank
import ConventionalRelease.Unicode.CaseFolding
import ConventionalRelease.Unicode.Word

/-!
# Sets of characters

What one position of a pattern may match: ranges, the classes of digits, word characters and blanks,
and the combinations that brackets allow. `CharSet.caseless` closes a set under a change of case; a
negated bracket is closed before it is negated.
-/

namespace ConventionalRelease

/-- A set of characters. -/
inductive CharSet where
  | none
  /-- The characters from `lo` to `hi`, both included. -/
  | range (lo hi : Char)
  | digit
  /-- The characters of words. -/
  | word
  | blank
  /-- The characters of either set. -/
  | union (s t : CharSet)
  /-- The characters of both sets. -/
  | inter (s t : CharSet)
  /-- The characters outside the set. -/
  | compl (s : CharSet)
  /-- The set as written in brackets, negated or not. -/
  | bracket (negated : Bool) (s : CharSet)
  /-- The characters that differ only in case from one of the set. -/
  | fold (s : CharSet)
  deriving DecidableEq, Repr, Inhabited

namespace CharSet

/-- The set of one character. -/
def single (c : Char) : CharSet := range c c

/-- Every character but a line feed. -/
def exceptLineFeed : CharSet := compl (single '\n')

/-- Every character. -/
def all : CharSet := compl none

/-- Whether the character belongs to the set. -/
def contains : CharSet → Char → Bool
  | none, _ => false
  | range lo hi, c => lo ≤ c && c ≤ hi
  | digit, c => Unicode.isDigit c
  | word, c => Unicode.isWord c
  | blank, c => Text.isBlank c
  | union s t, c => s.contains c || t.contains c
  | inter s t, c => s.contains c && t.contains c
  | compl s, c => !s.contains c
  | bracket negated s, c => s.contains c != negated
  | fold s, c => (Unicode.caseVariants c).any s.contains

/-- The set closed under a change of case, at each pair of brackets. -/
def caseless : CharSet → CharSet
  | none => none
  | range lo hi => fold (range lo hi)
  | digit => digit
  | word => word
  | blank => blank
  | union s t => union s.caseless t.caseless
  | inter s t => inter (fold s.caseless) (fold t.caseless)
  | compl s => compl s.caseless
  | bracket negated s => bracket negated (fold s.caseless)
  | fold s => fold s

end CharSet

/-- A character equals the only member of its set. -/
@[simp] theorem CharSet.contains_single (a c : Char) :
    (CharSet.single a).contains c = (a == c) := by
  rw [CharSet.single, CharSet.contains, Bool.eq_iff_iff]
  simp only [Bool.and_eq_true, decide_eq_true_eq, beq_iff_eq]
  constructor
  · intro h; exact Char.le_antisymm h.1 h.2
  · rintro rfl; exact ⟨Char.le_refl _, Char.le_refl _⟩

/-- A dot matches everything but a line feed. -/
@[simp] theorem CharSet.contains_exceptLineFeed (c : Char) :
    CharSet.exceptLineFeed.contains c = (c != '\n') := by
  simp only [CharSet.exceptLineFeed, CharSet.contains, CharSet.contains_single, bne]
  rw [Bool.beq_comm]

end ConventionalRelease
