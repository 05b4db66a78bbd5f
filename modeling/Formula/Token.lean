/-
# Formula.Token — the words of a formula

A token is an operand, an operator, a routine's name or one of the grammar's
marks, together with the span of the source it was read from. The grammar only
sees its `Category`, in which a variable counts as a constant.
-/
import Formula.Symbol
import Formula.Text.Utf8

namespace Formula

set_option autoImplicit false

/-- What a token is to the grammar. -/
inductive Category where
  | constant
  | operator
  | routine
  | opening
  | closing
  | separator
deriving DecidableEq, Repr

/-- What a token means. A variable is a slot, by number. -/
inductive Meaning where
  | constant (value : Float)
  | slot (index : Nat)
  | operator (o : Operator)
  | routine (r : Routine)
  | opening
  | closing
  | separator

namespace Meaning

def category : Meaning → Category
  | .constant _ => .constant
  | .slot _ => .constant
  | .operator _ => .operator
  | .routine _ => .routine
  | .opening => .opening
  | .closing => .closing
  | .separator => .separator

/-- The meaning in words. -/
def describe : Meaning → String
  | .constant value => "Constant(" ++ Number.display value ++ ")"
  | .slot index => "Variable(#" ++ toString index ++ ")"
  | .operator o => "Operator(" ++ o.symbol ++ ")"
  | .routine r => "Function(" ++ r.name ++ "/" ++ toString r.arity ++ ")"
  | .opening => "Left"
  | .closing => "Right"
  | .separator => "Separator"

end Meaning

/-- A meaning and the span it was read from. -/
structure Token where
  meaning : Meaning
  span : Span

namespace Token

def category (t : Token) : Category := t.meaning.category

/-- The text the token was read from. -/
def text (t : Token) (source : List Char) : List Char := Text.slice source t.span

end Token

end Formula
