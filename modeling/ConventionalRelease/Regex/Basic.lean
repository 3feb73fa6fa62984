import ConventionalRelease.Regex.CharSet

/-!
# Regular expressions and the ways they match

`Regex.ways` lists every way in which an expression can match from a place in a text, the preferred
way first: the left side of an alternative before the right one, one more repetition before none
when the repetition is greedy, and the other way round when it is lazy. So the head of the list is
the match, and what a larger expression does is a list operation on what its parts do.

A repetition visits each place once: of two ways to the same place only the first can matter, since
what follows depends on the place alone. An iteration that matches nothing is the last one.
-/

namespace ConventionalRelease

/-- A condition on a place in a text. -/
inductive Anchor where
  /-- The start of the text. -/
  | textStart
  /-- The end of the text. -/
  | textEnd
  /-- The start of a line. -/
  | lineStart
  /-- The end of a line. -/
  | lineEnd
  /-- Between a word character and something else. -/
  | wordEdge
  /-- Not at the edge of a word. -/
  | noWordEdge
  | wordStart
  | wordEnd
  deriving DecidableEq, Repr, Inhabited

/-- A regular expression. -/
inductive Regex where
  | empty
  /-- One character of a set. -/
  | one (s : CharSet)
  /-- A place where the anchor holds. -/
  | anchor (a : Anchor)
  /-- The first expression, then the second. -/
  | seq (p q : Regex)
  /-- The first expression or, failing that, the second. -/
  | alt (p q : Regex)
  /-- The expression once or more often. -/
  | many (greedy : Bool) (p : Regex)
  /-- The expression, recorded as the group `index`. -/
  | group (index : Nat) (p : Regex)
  deriving DecidableEq, Repr, Inhabited

/-- How far a match has come: the text before the place, nearest character first, the text after it,
and what the groups have recorded, latest first. -/
structure Progress where
  /-- The text before the place, nearest character first. -/
  before : List Char
  /-- The text after the place. -/
  after : List Char
  /-- The recorded groups, latest first. -/
  groups : List (Nat × List Char)
  deriving DecidableEq, Repr, Inhabited

namespace Progress

/-- How much text is left; it tells the places of a text apart. -/
def left (w : Progress) : Nat := w.after.length

/-- What the group recorded last. -/
def group? (w : Progress) (index : Nat) : Option (List Char) :=
  w.groups.lookup index

/-- Records what was matched since `start` as the group `index`. -/
def record (w : Progress) (index : Nat) (start : Progress) : Progress :=
  { w with groups := (index, start.after.take (start.left - w.left)) :: w.groups }

end Progress

/-- Whether a neighbour of a place is a word character. -/
def isWordAt (neighbour : Option Char) : Bool :=
  neighbour.any Unicode.isWord

/-- Whether the anchor holds at the place. -/
def Anchor.holds (a : Anchor) (w : Progress) : Bool :=
  let wordBefore := isWordAt w.before.head?
  let wordAfter := isWordAt w.after.head?
  match a with
  | .textStart => w.before.isEmpty
  | .textEnd => w.after.isEmpty
  | .lineStart => w.before.head?.all (· == '\n')
  | .lineEnd => w.after.head?.all (· == '\n')
  | .wordEdge => wordBefore != wordAfter
  | .noWordEdge => wordBefore == wordAfter
  | .wordStart => !wordBefore && wordAfter
  | .wordEnd => wordBefore && !wordAfter

/-- Where a repetition of `body` can be after one more iteration from `w`, or several, with the
places it has seen. The first argument bounds the number of iterations. -/
def repeatFrom (body : Progress → List Progress) (greedy : Bool) :
    Nat → Progress → List Nat → List Progress × List Nat
  | 0, _, seen => ([], seen)
  | n + 1, w, seen =>
    (body w).foldl (fun (found, seen) w' =>
      if w'.left ∈ seen then
        (found, seen)
      else if w'.left = w.left then
        (found ++ [w'], w'.left :: seen)
      else
        let (further, seen') := repeatFrom body greedy n w' (w'.left :: seen)
        (found ++ (if greedy then further ++ [w'] else w' :: further), seen')) ([], seen)

namespace Regex

/-- The ways to match from a place, preferred way first. -/
def ways : Regex → Progress → List Progress
  | empty, w => [w]
  | one s, w =>
    match w.after with
    | [] => []
    | c :: rest =>
      if s.contains c then [{ w with before := c :: w.before, after := rest }] else []
  | anchor a, w => if a.holds w then [w] else []
  | seq p q, w => (p.ways w).flatMap q.ways
  | alt p q, w => p.ways w ++ q.ways w
  | many greedy p, w => (repeatFrom p.ways greedy (w.left + 1) w []).1
  | group index p, w => (p.ways w).map fun w' => w'.record index w

/-- The first match in the text `after` a place, from the place itself or, failing that, from a
later one. -/
def searchFrom (r : Regex) : List Char → List Char → Option Progress
  | before, [] => (r.ways ⟨before, [], []⟩).head?
  | before, c :: rest =>
    match (r.ways ⟨before, c :: rest, []⟩).head? with
    | some w => some w
    | none => r.searchFrom (c :: before) rest

/-- The first match in a text. -/
def search (r : Regex) (text : List Char) : Option Progress :=
  r.searchFrom [] text

/-- Whether the expression matches somewhere in the text. -/
def matchesIn (r : Regex) (text : List Char) : Bool :=
  (r.search text).isSome

/-- The expression or nothing. -/
def optional (greedy : Bool) (p : Regex) : Regex :=
  if greedy then alt p empty else alt empty p

/-- The expressions one after the other. -/
def sequence : List Regex → Regex
  | [] => empty
  | [p] => p
  | p :: rest => seq p (sequence rest)

/-- The first expression that matches, in the order of the list. -/
def choice : List Regex → Regex
  | [] => empty
  | [p] => p
  | p :: rest => alt p (choice rest)

/-- The expression up to `n` times. -/
def upTo (greedy : Bool) (p : Regex) : Nat → Regex
  | 0 => empty
  | 1 => optional greedy p
  | n + 1 => optional greedy (seq p (upTo greedy p n))

/-- The expression at least `min` and at most `max` times, without bound if `max` is missing. Zero
times is nothing at all, groups included. -/
def repeated (greedy : Bool) (p : Regex) (min : Nat) (max : Option Nat) : Regex :=
  match min, max with
  | 0, none => optional greedy (many greedy p)
  | n + 1, none => sequence (List.replicate n p ++ [many greedy p])
  | min, some max =>
    if max = 0 then empty
    else sequence (List.replicate min p ++ if max = min then [] else [upTo greedy p (max - min)])

/-- The indices of the groups in the expression. -/
def groupIndices : Regex → List Nat
  | empty | one _ | anchor _ => []
  | seq p q | alt p q => p.groupIndices ++ q.groupIndices
  | many _ p => p.groupIndices
  | group index p => index :: p.groupIndices

/-- The number of groups: the greatest index of one. -/
def groupCount (r : Regex) : Nat :=
  r.groupIndices.foldl max 0

end Regex

end ConventionalRelease
