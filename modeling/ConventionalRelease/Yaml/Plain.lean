import ConventionalRelease.Document.Basic
import ConventionalRelease.Text.Numeral

/-!
# What plain scalars stand for

A plain scalar is no value, a truth value or a number when it has the form of one, and else a text.
Only the spellings below are special: a word such as `yes` is a text, and so is a numeral with a
needless zero in front.
-/

namespace ConventionalRelease.Yaml

/-- The spellings of no value, an empty scalar aside. -/
def nullWords : List String := ["null", "Null", "NULL", "~"]

/-- The spellings of truth. -/
def trueWords : List String := ["true", "True", "TRUE"]

/-- The spellings of falsity. -/
def falseWords : List String := ["false", "False", "FALSE"]

/-- The spellings of numbers that are none. -/
def specialNumbers : List String :=
  [".nan", ".NaN", ".NAN", ".inf", ".Inf", ".INF", "+.inf", "+.Inf", "+.INF", "-.inf",
    "-.Inf", "-.INF"]

/-- Whether there are several digits, the first of them zero. -/
def hasNeedlessZero (s : List Char) : Bool :=
  match unsigned s with
  | '0' :: rest => !rest.isEmpty && rest.all Char.isDigit
  | _ => false

/-- Reads digits in a base that may be marked in front. -/
def natural? (s : List Char) : Option Nat :=
  let marked := match s with
    | '0' :: 'x' :: rest => digits? 16 rest
    | '0' :: 'o' :: rest => digits? 8 rest
    | '0' :: 'b' :: rest => digits? 2 rest
    | _ => none
  marked.orElse fun _ => digits? 10 s

/-- Reads a whole number, with a sign or without. -/
def integer? (s : List Char) : Option Int :=
  if hasNeedlessZero s then none
  else match s with
    | '-' :: rest => (natural? rest).map fun n => -(n : Int)
    | _ => (natural? (unsigned s)).map Int.ofNat

/-- Whether the scalar is a number with a fraction or an exponent. -/
def isFraction (s : List Char) : Bool :=
  !hasNeedlessZero s && (Decimal.read? (unsigned s)).any (·.isFinite)

/-- The form of a plain scalar. -/
inductive PlainForm where
  | null
  | bool (b : Bool)
  | integer (n : Int)
  /-- A number with a fraction or an exponent. -/
  | fraction
  /-- A number that is none. -/
  | special
  | word
  deriving DecidableEq, Repr

/-- The range of the numerals that are whole numbers, which have 128 bits with a sign or without;
beyond it they are read as fractions. -/
def numeralRange : Int × Int :=
  (-170141183460469231731687303715884105728, 340282366920938463463374607431768211455)

/-- The form that a plain scalar has. -/
def PlainForm.of (s : List Char) : PlainForm :=
  let word := String.ofList s
  if s.isEmpty || word ∈ nullWords then .null
  else if word ∈ trueWords then .bool true
  else if word ∈ falseWords then .bool false
  else match (integer? s).filter (fun n => numeralRange.1 ≤ n && n ≤ numeralRange.2) with
    | some n => .integer n
    | none =>
      if word ∈ specialNumbers then .special
      else if isFraction s then .fraction
      else .word

/-- The range of the whole numbers that a document can hold, which have 64 bits with a sign or
without. -/
def integerRange : Int × Int := (-9223372036854775808, 18446744073709551615)

/-- What a plain scalar stands for; none when it is a whole number that no document can hold. -/
def plainDocument? (s : List Char) : Option Document :=
  match PlainForm.of s with
  | .null | .special => some .null
  | .bool b => some (.bool b)
  | .integer n => if integerRange.1 ≤ n ∧ n ≤ integerRange.2 then some (.int n) else none
  | .fraction => some (.real (String.ofList s))
  | .word => some (.text (String.ofList s))

end ConventionalRelease.Yaml
