/-
# Formula.Tree.Folding — computing constant subtrees once

A node whose operands are all constants is replaced by the constant it
computes, from the leaves up. Each replacement makes one call, so folding gives
the calls it made along with the tree. `IsFolded` says that nothing is left to
fold.
-/
import Formula.Tree

namespace Formula.Tree

set_option autoImplicit false

/-- The values of some trees if all are constants. -/
def constants? : List Tree → Option (List Float)
  | [] => some []
  | t :: ts =>
    match t.constant?, constants? ts with
    | some value, some values => some (value :: values)
    | _, _ => none

mutual

/-- Fold a tree, and list the calls made. -/
def folding : Tree → Tree × List Call
  | .constant value => (.constant value, [])
  | .slot index => (.slot index, [])
  | .apply o lhs rhs =>
    let (lhs, before) := lhs.folding
    let (rhs, after) := rhs.folding
    match lhs.constant?, rhs.constant? with
    | some a, some b => (.constant (o.apply a b), before ++ after ++ [⟨.operator o, [a, b]⟩])
    | _, _ => (.apply o lhs rhs, before ++ after)
  | .call r arguments =>
    let (arguments, before) := foldingAll arguments
    match constants? arguments with
    | some values => (.constant (r.apply values), before ++ [⟨.routine r, values⟩])
    | none => (.call r arguments, before)

/-- Fold trees in turn. -/
def foldingAll : List Tree → List Tree × List Call
  | [] => ([], [])
  | t :: ts =>
    let (t, before) := t.folding
    let (ts, after) := foldingAll ts
    (t :: ts, before ++ after)

end

/-- The tree with every constant subtree computed. -/
def fold (t : Tree) : Tree := t.folding.1

/-- The calls that folding a tree makes. -/
def foldCalls (t : Tree) : List Call := t.folding.2

/-- No node has constants only below it. -/
inductive IsFolded : Tree → Prop where
  | constant (value : Float) : IsFolded (.constant value)
  | slot (index : Nat) : IsFolded (.slot index)
  | apply (o : Operator) {lhs rhs : Tree} :
    IsFolded lhs → IsFolded rhs → ¬ (lhs.isConstant ∧ rhs.isConstant) →
    IsFolded (.apply o lhs rhs)
  | call (r : Routine) {arguments : List Tree} :
    (∀ t ∈ arguments, IsFolded t) → ¬ (∀ t ∈ arguments, t.isConstant) →
    IsFolded (.call r arguments)

end Formula.Tree
