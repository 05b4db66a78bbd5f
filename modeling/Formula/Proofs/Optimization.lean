/-
# Formula.Proofs.Optimization — optimizing cannot be seen in a value

Folding makes its calls once and collects their arguments in lists; an
evaluation makes them every time and finds the arguments on its buffer. Both
apply the same functions to the same values, so a folded tree has the value of
the tree, on all slots and whatever else the buffer holds (`evaluate_fold`),
and neither way stops at a slot that is missing or at a call with the wrong
number of arguments.

For formulas this means that optimizing between compiling and evaluating changes
neither a value nor a fault (`optimizing_keeps_values`).
-/
import Formula.Compiled
import Formula.Proofs.Tree.Calls

namespace Formula

set_option autoImplicit false

/-- Evaluated in one workspace and folded in another, a tree gives the same value. Neither
evaluation is stopped, and both leave their buffers as they were. -/
theorem Tree.evaluate_fold {t : Tree} {slots : List Float} (filled : t.Filled)
    (within : ∀ i ∈ t.slots, i < slots.length) (w w' : Workspace) :
    ∃ (value : Float) (after after' : Workspace),
      (t.evaluate? slots w = some (value, after) ∧ t.evaluate slots w = (value, after) ∧
          after.staged = w.staged) ∧
        t.fold.evaluate? slots w' = some (value, after') ∧
          t.fold.evaluate slots w' = (value, after') ∧ after'.staged = w'.staged := by
  obtain ⟨after, unstopped, evaluated, staged, -⟩ := filled.logs within w
  have within' : ∀ i ∈ t.fold.slots, i < slots.length := by
    rwa [Tree.slots_fold]
  obtain ⟨after', unstopped', evaluated', staged', -⟩ := filled.fold.logs within' w'
  rw [Tree.denote_fold] at unstopped' evaluated'
  exact ⟨_, after, after', ⟨unstopped, evaluated, staged⟩, unstopped', evaluated', staged'⟩

namespace Compiled

/-- With as many values as there are slots, the value of a formula is that of its tree,
and any other number of values is refused. -/
theorem evaluateWith_value (c : Compiled) (values : List Float) :
    (c.evaluateWith values).map Evaluation.value =
      if values.length ≠ c.slots.length then .error (.valueCount c.slots.length values.length)
      else .ok (c.tree.denote values) := by
  rw [evaluateWith]
  split
  · rfl
  · exact congrArg Except.ok (Tree.evaluate_value values c.tree (.holding c.staged))

/-- Given the same values, a formula and the optimized formula have the same value,
or refuse them for the same reason. -/
theorem evaluateWith_optimized (c : Compiled) (values : List Float) :
    (c.optimized.1.evaluateWith values).map Evaluation.value =
      (c.evaluateWith values).map Evaluation.value := by
  rw [evaluateWith_value, evaluateWith_value]
  simp only [optimized, Tree.denote_fold]

/-- Folding keeps the value of every tree, and a compiled formula gives the same
value or fault for all values of its variables whether it was optimized or not. -/
theorem optimizing_keeps_values :
    (∀ (t : Tree) (slots : List Float), t.Filled → (∀ i ∈ t.slots, i < slots.length) →
        t.folding? = some t.folding ∧
          ∀ w w' : Workspace, ∃ (value : Float) (after after' : Workspace),
            (t.evaluate? slots w = some (value, after) ∧ t.evaluate slots w = (value, after) ∧
                after.staged = w.staged) ∧
              t.fold.evaluate? slots w' = some (value, after') ∧
                t.fold.evaluate slots w' = (value, after') ∧ after'.staged = w'.staged) ∧
      ∀ (source : String) (declaration : Declaration) (registry : Registry) (values : List Float),
        ((compile source declaration registry).bind fun c =>
            (c.optimized.1.evaluateWith values).map Evaluation.value) =
          (compile source declaration registry).bind fun c =>
            (c.evaluateWith values).map Evaluation.value := by
  refine ⟨fun t slots filled within => ?_, fun source declaration registry values => ?_⟩
  · exact ⟨Tree.folding?_of_filled filled, Tree.evaluate_fold filled within⟩
  · congr 1
    funext c
    exact evaluateWith_optimized c values

/-- A call over a constant sum and a variable, where the buffer holds a value. -/
theorem optimizing_keeps_values_call :
    let sum : Operator := ⟨"+", 2, .left, fun a b => a + b, false⟩
    let first : Routine := ⟨"first", 2, fun values => values.headD 0.0, false⟩
    let t : Tree := .call first [.apply sum (.constant 1.0) (.constant 2.0), .slot 0]
    t.Filled ∧ (∀ i ∈ t.slots, i < [4.0].length) ∧
      ∃ (value : Float) (after after' : Workspace),
        (t.evaluate? [4.0] (.holding #[5.0]) = some (value, after) ∧
            t.evaluate [4.0] (.holding #[5.0]) = (value, after) ∧ after.staged = #[5.0]) ∧
          t.fold.evaluate? [4.0] (.holding #[]) = some (value, after') ∧
            t.fold.evaluate [4.0] (.holding #[]) = (value, after') ∧ after'.staged = #[] := by
  intro sum first t
  have filled : t.Filled := .pair rfl (.apply sum (.constant _) (.constant _)) (.slot 0)
  have within : ∀ i ∈ t.slots, i < [4.0].length := by
    simp [t, Tree.slots, Tree.slotsOfAll]
  exact ⟨filled, within,
    (optimizing_keeps_values.1 t [4.0] filled within).2 (.holding #[5.0]) (.holding #[])⟩

end Compiled

end Formula
