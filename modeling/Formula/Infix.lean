/-
# Formula.Infix — token order

Before a formula is rearranged, its tokens are checked in the order in which
they stand. The check sees neighbours only: what may come first, what may come
last, and what may follow what. It does not count parentheses, arguments or
operands; two operands side by side pass it.
-/
import Formula.Fault
import Formula.Token

namespace Formula

set_option autoImplicit false

namespace Category

/-- What an expression may start with. -/
def starts : Category → Bool
  | .constant | .opening | .routine => true
  | .closing | .separator | .operator => false

/-- What an expression may end with. -/
def finishes : Category → Bool
  | .constant | .closing => true
  | .opening | .separator | .operator | .routine => false

/-- Why the second token may not follow the first, if it may not. -/
def clash? : Category → Category → Option Misplacement
  | .constant, _ => none
  | .closing, _ => none
  | .opening, next => if next.starts then none else some .operandDue
  | .separator, next => if next.starts then none else some .operandDue
  | .operator, next => if next.starts then none else some .operandDue
  | .routine, next => if next = .opening then none else some .parenthesisDue

end Category

namespace Infix

/-- The first token that may not follow the one before it. -/
def firstClash? : List Token → Option Fault
  | first :: second :: rest =>
    match first.category.clash? second.category with
    | some reason => some (.misplaced reason second.span)
    | none => firstClash? (second :: rest)
  | _ => none

/-- The fault in the order of some tokens, looked for at the start, between
neighbours and at the end, in this order. -/
def fault? : List Token → Option Fault
  | [] => some (.undefinedSymbol none)
  | first :: rest =>
    let last := (first :: rest).getLast (by simp)
    if rest.isEmpty && first.category != .constant then some (.misplaced .lone first.span)
    else if !first.category.starts then some (.misplaced .start first.span)
    else
      match firstClash? (first :: rest) with
      | some fault => some fault
      | none => if last.category.finishes then none else some (.misplaced .finish last.span)

/-- Tokens in an acceptable order, as they are. -/
def check (tokens : List Token) : Except Fault (List Token) :=
  match fault? tokens with
  | some fault => .error fault
  | none => .ok tokens

end Infix

end Formula
