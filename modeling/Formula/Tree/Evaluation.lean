/-
# Formula.Tree.Evaluation — the value of a tree

`denote` is the value of a tree for given slots, by recursion. `evaluate`
computes it as a machine does: the arguments of a call are put aside on a
buffer until the routine reads them, then taken off again. The workspace also
records how long the buffer ever was and which calls were made.
-/
import Formula.Tree

namespace Formula

set_option autoImplicit false

/-- The value of a slot, zero for one that does not exist. -/
def slotValue (slots : List Float) (index : Nat) : Float := (slots[index]?).getD 0.0

namespace Tree

mutual

/-- The value of a tree. -/
def denote (slots : List Float) : Tree → Float
  | .constant value => value
  | .slot index => slotValue slots index
  | .apply o lhs rhs => o.apply (lhs.denote slots) (rhs.denote slots)
  | .call r arguments => r.apply (denoteAll slots arguments)

/-- The values of some trees. -/
def denoteAll (slots : List Float) : List Tree → List Float
  | [] => []
  | t :: ts => t.denote slots :: denoteAll slots ts

end

end Tree

/-- What an evaluation works with: the values put aside, oldest first, the
greatest number of them so far, and the calls made so far. -/
structure Workspace where
  staged : Array Float
  peak : Nat
  calls : Array Call

namespace Workspace

/-- A workspace whose buffer holds some values already. -/
def holding (staged : Array Float) : Workspace := ⟨staged, staged.size, #[]⟩

/-- Put a value aside. -/
def stage (w : Workspace) (value : Float) : Workspace where
  staged := w.staged.push value
  peak := max w.peak (w.staged.size + 1)
  calls := w.calls

/-- Note a call. -/
def record (w : Workspace) (call : Call) : Workspace := { w with calls := w.calls.push call }

/-- The values put aside since the buffer had a certain size. -/
def stagedSince (w : Workspace) (base : Nat) : List Float :=
  (w.staged.extract base w.staged.size).toList

/-- Cut the buffer back to a size. -/
def release (w : Workspace) (base : Nat) : Workspace := { w with staged := w.staged.take base }

end Workspace

namespace Tree

mutual

/-- Evaluate a tree in a workspace. -/
def evaluate (slots : List Float) : Tree → Workspace → Float × Workspace
  | .constant value, w => (value, w)
  | .slot index, w => (slotValue slots index, w)
  | .apply o lhs rhs, w =>
    let (a, w) := lhs.evaluate slots w
    let (b, w) := rhs.evaluate slots w
    (o.apply a b, w.record ⟨.operator o, [a, b]⟩)
  | .call r arguments, w =>
    let base := w.staged.size
    let w := stageAll slots arguments w
    let values := w.stagedSince base
    (r.apply values, (w.record ⟨.routine r, values⟩).release base)

/-- Evaluate trees in turn and put each value aside. -/
def stageAll (slots : List Float) : List Tree → Workspace → Workspace
  | [], w => w
  | t :: ts, w =>
    let (value, w) := t.evaluate slots w
    stageAll slots ts (w.stage value)

end

end Tree

end Formula
