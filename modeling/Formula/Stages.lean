/-
# Formula.Stages — watching a formula being compiled

Compilation goes through stages: the order of the tokens is checked, they are
put in postfix order, the tree is built, and its constant parts may be folded.
`inspect` runs chosen stages on some tokens and reports what each one gives, up
to the first that fails.
-/
import Formula.Infix
import Formula.Postfix
import Formula.Tree.Assembly
import Formula.Tree.Folding

namespace Formula

set_option autoImplicit false

/-- The stages after the text was split into tokens. -/
inductive Stage where
  | check
  | reorder
  | build
  | fold
deriving DecidableEq, Repr

/-- What a stage gave. -/
inductive Report where
  | checked (tokens : List Token)
  | reordered (tokens : List Token)
  | built (tree : Tree)
  | folded (tree : Tree) (calls : List Call)
  | failed (stage : Stage) (fault : Fault)

namespace Stage

/-- All stages in order, with or without folding. -/
def all (folding : Bool) : List Stage :=
  [.check, .reorder, .build] ++ if folding then [.fold] else []

/-- Run stages once there is a tree: only folding has something to do. -/
def inspectTree : List Stage → Tree → List Report
  | [], _ => []
  | .fold :: rest, tree => .folded tree.fold tree.foldCalls :: inspectTree rest tree.fold
  | _ :: rest, tree => inspectTree rest tree

/-- Run stages on some tokens. -/
def inspect : List Stage → List Token → List Report
  | [], _ => []
  | .check :: rest, tokens =>
    match Infix.check tokens with
    | .error fault => [.failed .check fault]
    | .ok tokens => .checked tokens :: inspect rest tokens
  | .reorder :: rest, tokens =>
    match toPostfix tokens with
    | .error fault => [.failed .reorder fault]
    | .ok tokens => .reordered tokens :: inspect rest tokens
  | .build :: rest, tokens =>
    match Tree.ofPostfix tokens with
    | .error fault => [.failed .build fault]
    | .ok tree => .built tree :: inspectTree rest tree
  | .fold :: rest, tokens => inspect rest tokens

end Stage

end Formula
