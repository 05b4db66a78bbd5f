/-
# Formula.Proofs.Tree.Value — evaluation and folding keep the value of a tree

`denote` is what a tree is worth. The evaluation computes it and leaves the
buffer as it found it (`evaluate_value`, `evaluate_staged`): what it puts aside
for a call lies above what was there, and is taken off again. Folding changes
the tree and not its value (`denote_fold`).
-/
import Formula.Tree.Evaluation
import Formula.Tree.Folding

namespace Formula.Tree

set_option autoImplicit false

/-! ## Evaluation -/

@[simp] theorem staged_record (w : Workspace) (call : Call) :
    (w.record call).staged = w.staged := rfl

@[simp] theorem staged_stage (w : Workspace) (value : Float) :
    (w.stage value).staged = w.staged.push value := rfl

/-- What was put aside on top of a buffer is found there. -/
theorem stagedSince_of_append {w : Workspace} {below : Array Float} {values : List Float}
    (staged : w.staged = below ++ values.toArray) : w.stagedSince below.size = values := by
  simp [Workspace.stagedSince, staged]

theorem staged_release {w : Workspace} {below : Array Float} {values : List Float}
    (staged : w.staged = below ++ values.toArray) : (w.release below.size).staged = below := by
  simp [Workspace.release, staged]

mutual

/-- Evaluating gives the value of the tree and leaves the buffer as it was. -/
theorem evaluate_eq (slots : List Float) : ∀ (t : Tree) (w : Workspace),
    (t.evaluate slots w).1 = t.denote slots ∧ (t.evaluate slots w).2.staged = w.staged
  | .constant _, _ => ⟨rfl, rfl⟩
  | .slot _, _ => ⟨rfl, rfl⟩
  | .apply o lhs rhs, w => by
      obtain ⟨left, afterLeft⟩ := evaluate_eq slots lhs w
      obtain ⟨right, afterRight⟩ := evaluate_eq slots rhs (lhs.evaluate slots w).2
      simp only [evaluate, denote, left, right, staged_record, afterRight, afterLeft, and_self]
  | .call r arguments, w => by
      have staged := staged_stageAll slots arguments w
      simp only [evaluate, denote, stagedSince_of_append staged, true_and]
      exact staged_release (w := (stageAll slots arguments w).record _) staged

/-- The values of arguments are put aside in their order. -/
theorem staged_stageAll (slots : List Float) : ∀ (ts : List Tree) (w : Workspace),
    (stageAll slots ts w).staged = w.staged ++ (denoteAll slots ts).toArray
  | [], w => by simp [stageAll, denoteAll]
  | t :: ts, w => by
      obtain ⟨value, after⟩ := evaluate_eq slots t w
      have later := staged_stageAll slots ts ((t.evaluate slots w).2.stage (t.evaluate slots w).1)
      rw [stageAll, later, staged_stage, after, value, denoteAll]
      simp

end

theorem evaluate_value (slots : List Float) (t : Tree) (w : Workspace) :
    (t.evaluate slots w).1 = t.denote slots := (evaluate_eq slots t w).1

theorem evaluate_staged (slots : List Float) (t : Tree) (w : Workspace) :
    (t.evaluate slots w).2.staged = w.staged := (evaluate_eq slots t w).2

/-! ## Folding -/

theorem eq_constant_of_constant? {t : Tree} {value : Float} (constant : t.constant? = some value) :
    t = .constant value := by
  cases t <;> simp_all [constant?]

/-- Trees that are all constants are the constants of their values. -/
theorem eq_map_of_constants? {ts : List Tree} {values : List Float}
    (constants : constants? ts = some values) : ts = values.map .constant := by
  induction ts generalizing values with
  | nil =>
      cases constants
      rfl
  | cons t ts ih =>
      rw [constants?] at constants
      split at constants
      · rename_i value others head tail
        cases constants
        rw [List.map_cons, ← ih tail, eq_constant_of_constant? head]
      · cases constants

theorem denoteAll_constants (slots : List Float) (values : List Float) :
    denoteAll slots (values.map .constant) = values := by
  induction values with
  | nil => rfl
  | cons value values ih => rw [List.map_cons, denoteAll, ih, denote]

mutual

theorem denote_folding (slots : List Float) : ∀ t : Tree,
    t.folding.1.denote slots = t.denote slots
  | .constant _ => rfl
  | .slot _ => rfl
  | .apply o lhs rhs => by
      have left := denote_folding slots lhs
      have right := denote_folding slots rhs
      simp only [folding, denote, ← left, ← right]
      split
      · rename_i a b isLeft isRight
        rw [eq_constant_of_constant? isLeft, eq_constant_of_constant? isRight]
        rfl
      · rfl
  | .call r arguments => by
      have all := denoteAll_foldingAll slots arguments
      simp only [folding, denote, ← all]
      split
      · rename_i values constants
        rw [eq_map_of_constants? constants, denoteAll_constants]
        rfl
      · rfl

theorem denoteAll_foldingAll (slots : List Float) : ∀ ts : List Tree,
    denoteAll slots (foldingAll ts).1 = denoteAll slots ts
  | [] => rfl
  | t :: ts => by
      have head := denote_folding slots t
      have tail := denoteAll_foldingAll slots ts
      simp only [foldingAll, denoteAll, head, tail]

end

/-- A folded tree has the value of the tree. -/
theorem denote_fold (slots : List Float) (t : Tree) : t.fold.denote slots = t.denote slots :=
  denote_folding slots t

end Formula.Tree
