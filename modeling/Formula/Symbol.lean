/-
# Formula.Symbol — the operators and routines a formula may refer to

An operator is written between its two operands and has a precedence and an
associativity. A routine is called by name with a fixed number of arguments.
Both compute a double from doubles and nothing else.

A definition may be *observed*: then each of its calls is worth reporting. The
record of one computation by an operator or routine is a `Call`.
-/
import Formula.Number.Text
import Formula.Text.Alphanumeric
import Formula.Text.Blank
import Formula.Text.Quoted

namespace Formula

set_option autoImplicit false

/-- Which of two operators of equal precedence takes the operand between them:
the first if they group to the left, the second if to the right. -/
inductive Associativity where
  | left
  | right
deriving DecidableEq, Repr

/-- An operator written between its operands. Of two operators, the one with
the higher precedence binds its operands more tightly. -/
structure Operator where
  symbol : String
  precedence : Nat
  associativity : Associativity
  apply : Float → Float → Float
  observed : Bool := false

/-- A function called by name with exactly `arity` arguments. -/
structure Routine where
  name : String
  arity : Nat
  apply : List Float → Float
  observed : Bool := false

/-! ## What may be a name -/

/-- Names of variables, routines and constants are one or more ASCII letters. -/
def isName (text : String) : Bool := text.toList ≠ [] && text.toList.all Char.isAlpha

/-- Whether a character may stand in an operator: it must not belong to
numbers, names, white space or the grammar's own punctuation. -/
def isOperatorChar (c : Char) : Bool :=
  !(Text.isAlphanumeric c || Text.isBlank c || c == '.' || c == '(' || c == ')' || c == ',')

/-- Operators are written with one or more operator characters. -/
def isOperatorSymbol (text : String) : Bool :=
  text.toList ≠ [] && text.toList.all isOperatorChar

/-! ## Making routines -/

/-- The answer to a call with the wrong number of arguments. -/
def notANumber : Float := 0.0 / 0.0

namespace Routine

/-- A routine of one argument. -/
def unary (name : String) (f : Float → Float) : Routine where
  name := name
  arity := 1
  apply
    | [a] => f a
    | _ => notANumber

/-- A routine of two arguments. -/
def binary (name : String) (f : Float → Float → Float) : Routine where
  name := name
  arity := 2
  apply
    | [a, b] => f a b
    | _ => notANumber

/-- A routine of three arguments. -/
def ternary (name : String) (f : Float → Float → Float → Float) : Routine where
  name := name
  arity := 3
  apply
    | [a, b, c] => f a b c
    | _ => notANumber

/-- A routine of four arguments. -/
def quaternary (name : String) (f : Float → Float → Float → Float → Float) : Routine where
  name := name
  arity := 4
  apply
    | [a, b, c, d] => f a b c d
    | _ => notANumber

/-- A one-line description, with the name between quotes. -/
def describe (r : Routine) : String :=
  "Function \x7b name: " ++ Text.quoted r.name ++ ", arity: " ++ toString r.arity ++ ", .. \x7d"

end Routine

namespace Operator

def isLeftAssociative (o : Operator) : Bool := o.associativity == .left

/-- A one-line description, with the symbol between quotes. -/
def describe (o : Operator) : String :=
  "Operator \x7b symbol: " ++ Text.quoted o.symbol ++ ", precedence: " ++ toString o.precedence ++
    ", associativity: " ++ (if o.isLeftAssociative then "Left" else "Right") ++ ", .. \x7d"

end Operator

/-! ## Calls -/

/-- What a call computes with. -/
inductive Callee where
  | operator (o : Operator)
  | routine (r : Routine)

namespace Callee

def name : Callee → String
  | .operator o => o.symbol
  | .routine r => r.name

def observed : Callee → Bool
  | .operator o => o.observed
  | .routine r => r.observed

end Callee

/-- One computation: an operator or routine and the values it was given. -/
structure Call where
  callee : Callee
  arguments : List Float

/-- The call as `name(value,value,...)`. -/
def Call.text (c : Call) : String :=
  c.callee.name ++ "(" ++ String.intercalate "," (c.arguments.map Number.display) ++ ")"

/-- The reports of the observed calls, in order. -/
def observedCalls (calls : List Call) : List String :=
  (calls.filter (·.callee.observed)).map Call.text

end Formula
