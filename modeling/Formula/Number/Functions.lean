/-
# Formula.Number.Functions — functions on doubles beyond the hardware's own

* `truncate`, `remainder`, `hypotenuse` and `cubeRoot` are exact: a rounding
  toward zero, the remainder of the truncated quotient, and the correctly
  rounded length and root.
* `least` and `greatest` pass over a NaN when the other argument is a number.
* `sign` keeps zeros and NaN as they are.
* The inverse hyperbolic tangent is built on `logOnePlus`, which keeps its
  accuracy near zero.
-/
import Formula.Number.Binary64

namespace Formula.Number

set_option autoImplicit false

/-- Round toward zero; the sign is kept, also on a zero result. -/
def truncate (x : Float) : Float := if x < 0.0 then x.ceil else x.floor

/-- What is left of `x` after taking away `y` as often as possible, with the
sign of `x`. There is none if `x` is infinite or `y` is zero; an infinite `y`
takes nothing away. The result is a whole number of units below `y`, so it is
exact. -/
def remainder (x y : Float) : Float :=
  if x.isNaN || y.isNaN || x.isInf || y == 0.0 then 0.0 / 0.0
  else if y.isInf then x
  else
    let left := Binary64.units (Binary64.rank x) % Binary64.units (Binary64.rank y)
    Binary64.ofRank (Binary64.negative x) (Binary64.rankBelow left)

/-- The length of the hypotenuse over two sides, correctly rounded. An infinite
side makes it infinite even beside a NaN. -/
def hypotenuse (x y : Float) : Float :=
  if x.isInf || y.isInf then Binary64.ofRank false Binary64.infinity
  else if x.isNaN || y.isNaN then 0.0 / 0.0
  else
    let side (z : Float) : Nat := Binary64.units (Binary64.rank z)
    Binary64.ofRank false (Binary64.nearestRoot 2 (side x * side x + side y * side y))

/-- The cube root, correctly rounded, with the sign of its argument. A value in
units is brought to cubic units before its root is taken. -/
def cubeRoot (x : Float) : Float :=
  if x.isNaN || x.isInf then x
  else
    let cube := Binary64.units (Binary64.rank x) * Nat.pow Binary64.unitsPerOne 2
    Binary64.ofRank (Binary64.negative x) (Binary64.nearestRoot 3 cube)

/-- The smaller of two numbers; a NaN gives way to a number. -/
def least (x y : Float) : Float :=
  if x.isNaN then y else if y.isNaN then x else if y < x then y else x

/-- The larger of two numbers; a NaN gives way to a number. -/
def greatest (x y : Float) : Float :=
  if x.isNaN then y else if y.isNaN then x else if x < y then y else x

/-- Plus or minus one by the sign; zeros and NaN are their own signs. -/
def sign (x : Float) : Float :=
  if x == 0.0 || x.isNaN then x else if x < 0.0 then -1.0 else 1.0

/-- The logarithm of `1 + x`. Where `1 + x` is rounded, the quotient makes up
for the part of `x` that was lost. -/
def logOnePlus (x : Float) : Float :=
  let sum := 1.0 + x
  if sum == 1.0 then x
  else if sum.isInf then sum.log
  else sum.log * (x / (sum - 1.0))

/-- The inverse hyperbolic tangent. -/
def artanh (x : Float) : Float := 0.5 * logOnePlus (2.0 * x / (1.0 - x))

/-- The logarithm of `x` to a base. -/
def logarithm (base x : Float) : Float := x.log / base.log

/-- Half the circumference of the unit circle. -/
def pi : Float := Float.ofBits 0x400921FB54442D18

/-- The base of the natural logarithm. -/
def e : Float := Float.ofBits 0x4005BF0A8B145769

end Formula.Number
