/-
# Formula.Tree — formulas as trees

A leaf is a constant or a variable, named by its slot; an inner node applies an
operator to two trees or calls a routine with a list of trees. Here stand the
type, its induction principle, the measures of a tree and its written form.

The written form puts every operator application between parentheses, so it
does not depend on precedences. `renderWith` leaves open how a variable is
named; `render` names it by its slot.
-/
import Formula.Symbol

namespace Formula

set_option autoImplicit false

/-- A formula without its text: operators and routines over constants and
variables. -/
inductive Tree where
  | constant (value : Float)
  | slot (index : Nat)
  | apply (o : Operator) (lhs rhs : Tree)
  | call (r : Routine) (arguments : List Tree)

namespace Tree

/-- Induction over trees, with the hypothesis for every argument of a call. -/
theorem induct {motive : Tree → Prop}
    (constant : ∀ value, motive (.constant value))
    (slot : ∀ index, motive (.slot index))
    (apply : ∀ o lhs rhs, motive lhs → motive rhs → motive (.apply o lhs rhs))
    (call : ∀ r arguments, (∀ t ∈ arguments, motive t) → motive (.call r arguments))
    (tree : Tree) : motive tree :=
  Tree.rec (motive_1 := motive) (motive_2 := fun ts => ∀ t ∈ ts, motive t)
    constant slot apply call (by simp)
    (fun _ _ head tail => by
      intro t member
      rcases List.mem_cons.mp member with same | later
      · exact same ▸ head
      · exact tail t later)
    tree

/-! ## Leaves -/

/-- The value of a constant. -/
def constant? : Tree → Option Float
  | .constant value => some value
  | _ => none

def isConstant (t : Tree) : Bool := t.constant?.isSome

mutual

/-- The variables of a tree from left to right, by slot. -/
def slots : Tree → List Nat
  | .constant _ => []
  | .slot index => [index]
  | .apply _ lhs rhs => lhs.slots ++ rhs.slots
  | .call _ arguments => slotsOfAll arguments

/-- The variables of some trees. -/
def slotsOfAll : List Tree → List Nat
  | [] => []
  | t :: ts => t.slots ++ slotsOfAll ts

end

/-- The largest slot a tree refers to. -/
def largestSlot? (t : Tree) : Option Nat := t.slots.max?

/-! ## Measures -/

mutual

/-- The number of levels, a leaf being one. -/
def height : Tree → Nat
  | .constant _ => 1
  | .slot _ => 1
  | .apply _ lhs rhs => max lhs.height rhs.height + 1
  | .call _ arguments => heightOfAll arguments + 1

/-- The greatest height of some trees. -/
def heightOfAll : List Tree → Nat
  | [] => 0
  | t :: ts => max t.height (heightOfAll ts)

end

mutual

/-- How many values an evaluation has to keep aside at once: an argument of a
call waits until all of them are known. -/
def stagingDepth : Tree → Nat
  | .constant _ => 0
  | .slot _ => 0
  | .apply _ lhs rhs => max lhs.stagingDepth rhs.stagingDepth
  | .call _ arguments => max (stagingDepthFrom 0 arguments) arguments.length

/-- The same for arguments of which some are already waiting. -/
def stagingDepthFrom (waiting : Nat) : List Tree → Nat
  | [] => 0
  | t :: ts => max (waiting + t.stagingDepth) (stagingDepthFrom (waiting + 1) ts)

end

/-! ## The written form -/

mutual

/-- The tree as text, with a name for each variable. -/
def renderWith (name : Nat → List Char) : Tree → List Char
  | .constant value => (Number.display value).toList
  | .slot index => name index
  | .apply o lhs rhs =>
    '(' :: lhs.renderWith name ++
      ' ' :: o.symbol.toList ++ ' ' :: rhs.renderWith name ++ [')']
  | .call r arguments => r.name.toList ++ '(' :: renderAllWith name arguments ++ [')']

/-- Trees as text, with a comma and a space between them. -/
def renderAllWith (name : Nat → List Char) : List Tree → List Char
  | [] => []
  | [t] => t.renderWith name
  | t :: ts => t.renderWith name ++ ',' :: ' ' :: renderAllWith name ts

end

/-- A variable by its slot, after a dollar sign. -/
def slotName (index : Nat) : List Char := '$' :: Nat.toDigits 10 index

/-- The tree as text, its variables by slot. -/
def render (t : Tree) : String := String.ofList (t.renderWith slotName)

end Tree

end Formula
