/-
# Formula.Number.Text — writing doubles in decimal

Two formats, both computed from the exact value:

* `display` writes the fewest digits that read back as the same double, and of
  those the closest to it, a tie going up. It never uses an exponent.
* `significant` writes a given number of significant digits in scientific
  form, rounded from the exact value with a half going to the even neighbour.

`shortest` tries one digit, then two, and so on. With `k` digits the value lies
between two neighbours on a decimal grid, and only these can be closest, so
each grid takes two trials of `Decimal.rank`. Seventeen digits always suffice;
the exact expansion stands behind them, so that whatever is written reads back.
-/
import Formula.Number.Decimal

namespace Formula.Number

set_option autoImplicit false

/-! ## Decimal position -/

/-- How many digits stand before the point in a number of units; zero or less
counts the zeros that follow it. No unit is below `10 ^ -400`, so scaling by
that power leaves a whole number of digits to count. -/
def digitsBeforePoint (n : Nat) : Int :=
  (Nat.toDigits 10 (n * powerOfTen 400 / Binary64.unitsPerOne)).length - 400

/-- A number of units times a power of ten, as numerator and denominator. -/
def scaledRatio (n : Nat) : Int → Nat × Nat
  | .ofNat p => (n * powerOfTen p, Binary64.unitsPerOne)
  | .negSucc k => (n, Binary64.unitsPerOne * powerOfTen (k + 1))

/-! ## The shortest digits -/

/-- The closer of the two neighbours of a quotient among the multiples of a power
of ten, of those that read back as `rank`; the quotient is that of the value at
the rank and the power. -/
def closerNeighbour (rank : Nat) (exponent : Int) (num den : Nat) : Option Decimal :=
  let low : Decimal := ⟨num / den, exponent⟩
  let high : Decimal := ⟨num / den + 1, exponent⟩
  if low.rank = rank then
    if high.rank = rank ∧ (2 * (num / den) + 1) * den ≤ 2 * num then some high else some low
  else if high.rank = rank then some high
  else none

/-- The closer of a value's two neighbours on the grid of `digits` digits among
those that read back as `rank`. -/
def shortestOfLength (rank digits : Nat) : Option Decimal :=
  let n := Binary64.units rank
  let exponent := digitsBeforePoint n - digits
  let ratio := scaledRatio n (-exponent)
  closerNeighbour rank exponent ratio.1 ratio.2

/-- The value at a rank with all its digits. -/
def exactDecimal (rank : Nat) : Decimal := ⟨Binary64.units rank * Nat.pow 5 1074, -1074⟩

/-- The decimal with the fewest digits that reads back as `rank`. -/
def shortest (rank : Nat) : Decimal :=
  ((List.range 17).findSome? fun k => shortestOfLength rank (k + 1)).getD (exactDecimal rank)

/-! ## Layout -/

/-- Digits without the zeros at their end. -/
def trimZeros (digits : List Char) : List Char :=
  (digits.reverse.dropWhile (· = '0')).reverse

/-- Write a decimal in full: no exponent, no needless zero, and a point only
before a fraction. -/
def positional (d : Decimal) : List Char :=
  let digits := Nat.toDigits 10 d.coefficient
  match d.exponent with
  | .ofNat e => if d.coefficient = 0 then digits else digits ++ List.replicate e '0'
  | .negSucc k =>
    let padded := List.replicate (k + 2 - digits.length) '0' ++ digits
    let whole := padded.take (padded.length - (k + 1))
    match trimZeros (padded.drop (padded.length - (k + 1))) with
    | [] => whole
    | fraction => whole ++ '.' :: fraction

/-- Put a minus before the text of a negative number. -/
def withSign (minus : Bool) (text : List Char) : List Char :=
  if minus then '-' :: text else text

/-- Write a double with the fewest digits that read back. -/
def display (x : Float) : String :=
  if x.isNaN then "NaN"
  else String.ofList <| withSign (Binary64.negative x) <|
    if x.isInf then "inf".toList else positional (shortest (Binary64.rank x))

/-! ## A fixed number of significant digits -/

/-- The whole number nearest to a quotient, a half going to the even one. -/
def roundHalfEven (num den : Nat) : Nat :=
  let whole := num / den
  match compare (2 * (num % den)) den with
  | .lt => whole
  | .eq => whole + whole % 2
  | .gt => whole + 1

/-- Scientific form: a point after the first digit, then the exponent. -/
def scientific (digits : List Char) (exponent : Int) : List Char :=
  let mantissa :=
    match digits with
    | first :: second :: rest => first :: '.' :: second :: rest
    | short => short
  mantissa ++ 'e' :: (toString exponent).toList

/-- Write a finite nonzero double with exactly `digits` significant digits;
other doubles as `display` does. -/
def significant (digits : Nat) (x : Float) : String :=
  let n := Binary64.units (Binary64.rank x)
  if x.isNaN || x.isInf || n == 0 then display x
  else
    let point := digitsBeforePoint n
    let (num, den) := scaledRatio n (digits - point)
    let rounded := roundHalfEven num den
    String.ofList <| withSign (Binary64.negative x) <|
      if rounded = powerOfTen digits then
        scientific (Nat.toDigits 10 (powerOfTen (digits - 1))) point
      else scientific (Nat.toDigits 10 rounded) (point - 1)

end Formula.Number
