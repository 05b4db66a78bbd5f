/-
# Formula.Registry.Standard — the definitions every formula starts with

Arithmetic with the usual precedences, of which only the power groups to the
right; the elementary functions; and two constants.
-/
import Formula.Number.Functions
import Formula.Registry

namespace Formula.Registry

set_option autoImplicit false

/-- The standard operators. -/
def standardOperators : List Operator := [
  ⟨"+", 2, .left, fun a b => a + b, false⟩,
  ⟨"-", 2, .left, fun a b => a - b, false⟩,
  ⟨"*", 3, .left, fun a b => a * b, false⟩,
  ⟨"/", 3, .left, fun a b => a / b, false⟩,
  ⟨"%", 3, .left, Number.remainder, false⟩,
  ⟨"^", 4, .right, Float.pow, false⟩]

/-- The standard routines of one argument. -/
def standardUnary : List (String × (Float → Float)) := [
  ("abs", Float.abs), ("sqrt", Float.sqrt), ("cbrt", Number.cubeRoot), ("exp", Float.exp),
  ("ln", Float.log), ("log", Float.log), ("lg", Float.log10), ("lb", Float.log2),
  ("sin", Float.sin), ("cos", Float.cos), ("tan", Float.tan),
  ("asin", Float.asin), ("acos", Float.acos), ("atan", Float.atan),
  ("sinh", Float.sinh), ("cosh", Float.cosh), ("tanh", Float.tanh),
  ("asinh", Float.asinh), ("acosh", Float.acosh), ("atanh", Number.artanh),
  ("ceil", Float.ceil), ("floor", Float.floor), ("round", Float.round),
  ("trunc", Number.truncate), ("sign", Number.sign)]

/-- The standard routines of two arguments. -/
def standardBinary : List (String × (Float → Float → Float)) := [
  ("pow", Float.pow), ("hypot", Number.hypotenuse), ("atanxy", Float.atan2),
  ("mod", Number.remainder), ("min", Number.least), ("max", Number.greatest),
  ("logb", Number.logarithm)]

/-- The standard constants. -/
def standardConstants : List (String × Float) := [("pi", Number.pi), ("e", Number.e)]

/-- The standard definitions. -/
def standard : Registry where
  operators := standardOperators
  routines :=
    standardUnary.map (fun (name, f) => .unary name f) ++
      standardBinary.map (fun (name, f) => .binary name f)
  constants := standardConstants
  kept := none

end Formula.Registry
