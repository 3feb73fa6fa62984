/-!
# Numerals

Digits in a base, and decimal numerals with a point and an exponent. A decimal is finite when it is
below the least number that is too large for double precision; the number itself is never rounded.
-/

namespace ConventionalRelease

/-- The value of a hexadecimal digit. -/
def hexDigit? (c : Char) : Option Nat :=
  if c.isDigit then some (c.toNat - 0x30)
  else if 'a' ≤ c ∧ c ≤ 'f' then some (c.toNat - 0x57)
  else if 'A' ≤ c ∧ c ≤ 'F' then some (c.toNat - 0x37)
  else none

/-- The value of a digit in a base up to sixteen. -/
def digitIn? (base : Nat) (c : Char) : Option Nat :=
  (hexDigit? c).filter (· < base)

/-- Reads digits in a base; there has to be one. -/
def digits? (base : Nat) (s : List Char) : Option Nat :=
  if s.isEmpty then none
  else (fun digits => digits.foldl (fun n d => base * n + d) 0) <$> s.mapM (digitIn? base)

/-- The character whose number is written in hexadecimal digits, if there is one. -/
def characterOfHex? (digits : List Char) : Option Char := do
  let n ← digits? 16 digits
  if h : n.isValidChar then some (Char.ofNatAux n h) else none

/-- A numeral without the sign in front. -/
def unsigned (s : List Char) : List Char :=
  match s with
  | '+' :: rest => rest
  | '-' :: rest => rest
  | _ => s

/-- Reads decimal digits with a sign or without. -/
def signedDigits? (s : List Char) : Option Int :=
  match s with
  | '-' :: rest => (digits? 10 rest).map fun n => -(n : Int)
  | _ => (digits? 10 (unsigned s)).map Int.ofNat

/-- A decimal numeral: digits, and the power of ten that they are multiplied by. -/
structure Decimal where
  /-- The number that the digits make up. -/
  digits : Nat
  /-- The power of ten. -/
  exponent : Int
  deriving DecidableEq, Repr

namespace Decimal

/-- Reads a numeral without a sign: digits with a point somewhere, and an exponent. -/
def read? (s : List Char) : Option Decimal := do
  let whole := s.takeWhile Char.isDigit
  let s := s.drop whole.length
  let (fraction, s) := match s with
    | '.' :: rest => (rest.takeWhile Char.isDigit, rest.dropWhile Char.isDigit)
    | _ => ([], s)
  let digits ← digits? 10 (whole ++ fraction)
  let exponent ← match s with
    | [] => some 0
    | c :: rest => if c = 'e' || c = 'E' then signedDigits? rest else none
  return { digits, exponent := exponent - fraction.length }

/-- The least number that is too large for double precision. -/
def doubleBound : Nat := Nat.pow 2 1024 - Nat.pow 2 970

/-- Whether the numeral is below the least number that is too large. Its order of magnitude decides,
except close to the bound, which has 309 digits. -/
def isFinite (d : Decimal) : Bool :=
  let magnitude : Int := (Nat.toDigits 10 d.digits).length + d.exponent
  if d.digits = 0 || magnitude < 309 then true
  else if 309 < magnitude then false
  else if 0 ≤ d.exponent then d.digits * Nat.pow 10 d.exponent.toNat < doubleBound
  else d.digits < doubleBound * Nat.pow 10 d.exponent.natAbs

end Decimal

end ConventionalRelease
