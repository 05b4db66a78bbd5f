/-
# Formula.Number.Decimal — decimal numerals and the doubles they denote

A `Decimal` is a whole coefficient times a power of ten. This module reads one
from text and rounds it to the nearest double:

* `Decimal.rank` is the rank of the nearest magnitude. Its shortcuts only spare
  the computation of huge powers: they answer what rounding would.
* `readUnsigned?` reads `digits`, `digits.digits` and `.digits`, with an
  optional exponent; `read?` adds a sign and the words for infinity and NaN.
-/
import Formula.Number.Binary64

namespace Formula.Number

set_option autoImplicit false

/-- The number `coefficient * 10 ^ exponent`. -/
structure Decimal where
  coefficient : Nat
  exponent : Int
deriving DecidableEq, Repr

/-- A power of ten. -/
def powerOfTen (n : Nat) : Nat := Nat.pow 10 n

namespace Decimal

/-- The rank of the double nearest to the number. Zero is zero with every
exponent; a nonzero coefficient times `10 ^ 309` lies beyond every finite
double, and a quotient below half the smallest unit rounds to zero. -/
def rank (d : Decimal) : Nat :=
  if d.coefficient = 0 then 0
  else
    match d.exponent with
    | .ofNat e =>
      if 309 ≤ e then Binary64.infinity
      else Binary64.nearest (d.coefficient * powerOfTen e) 1
    | .negSucc k =>
      if d.coefficient.log2 + 1076 ≤ 3 * (k + 1) then 0
      else Binary64.nearest d.coefficient (powerOfTen (k + 1))

/-! ## Reading -/

/-- The value of a string of decimal digits. -/
def ofDigits (digits : List Char) : Nat :=
  digits.foldl (fun n c => 10 * n + (c.toNat - '0'.toNat)) 0

/-- The value of the digits of an exponent, which takes in no more of them once
it has reached 65536: by then it outweighs all but the longest mantissas. -/
def ofExponentDigits (digits : List Char) : Nat :=
  digits.foldl (fun n c => if n < 65536 then 10 * n + (c.toNat - '0'.toNat) else n) 0

/-- Read the digits of an exponent, at least one. -/
def readExponentDigits? (cs : List Char) : Option Nat :=
  if cs ≠ [] ∧ cs.all Char.isDigit then some (ofExponentDigits cs) else none

/-- Read what stands after a mantissa: nothing, or the letter and a signed
exponent. -/
def readExponent? : List Char → Option Int
  | [] => some 0
  | c :: cs =>
    if c = 'e' ∨ c = 'E' then
      match cs with
      | '+' :: digits => (readExponentDigits? digits).map Int.ofNat
      | '-' :: digits => (readExponentDigits? digits).map fun n => -Int.ofNat n
      | digits => (readExponentDigits? digits).map Int.ofNat
    else none

/-- The digits before the point, those after it, and what follows them. -/
def mantissa (cs : List Char) : List Char × List Char × List Char :=
  let whole := cs.takeWhile Char.isDigit
  match cs.dropWhile Char.isDigit with
  | '.' :: rest => (whole, rest.takeWhile Char.isDigit, rest.dropWhile Char.isDigit)
  | rest => (whole, [], rest)

/-- Read an unsigned numeral: digits with at most one point among or around
them, at least one digit, and an optional exponent. -/
def readUnsigned? (cs : List Char) : Option Decimal :=
  let (whole, fraction, rest) := mantissa cs
  if whole = [] ∧ fraction = [] then none
  else (readExponent? rest).map fun e => ⟨ofDigits (whole ++ fraction), e - fraction.length⟩

end Decimal

/-- Split off a leading sign; the flag is set for a minus. -/
def splitSign : List Char → Bool × List Char
  | '-' :: cs => (true, cs)
  | '+' :: cs => (false, cs)
  | cs => (false, cs)

/-- Read a double: an optional sign, then `inf`, `infinity`, `nan` in any case,
or an unsigned numeral, correctly rounded. -/
def read? (cs : List Char) : Option Float :=
  let (minus, body) := splitSign cs
  let word := body.map Char.toLower
  if word = "nan".toList then some (0.0 / 0.0)
  else if word = "inf".toList ∨ word = "infinity".toList then
    some (Binary64.ofRank minus Binary64.infinity)
  else (Decimal.readUnsigned? body).map fun d => Binary64.ofRank minus d.rank

end Formula.Number
