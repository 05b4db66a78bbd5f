/-
# Formula.Proofs.Tree.Calls — which calls are made, and in which order

Every inner node of a tree is an application of an operator or a routine to the
trees below it. Evaluating a tree makes the call of each of its applications once,
in postorder (`evaluate_calls`). Folding makes the calls of those that have no
variable below them (`foldCalls_eq`), and leaves the others in the tree, in their
order and with operands of the same value (`applications_fold`).

So folding and the evaluation of the folded tree share the calls of an evaluation
among them: none is lost, none is made twice, and both make theirs in the order in
which the evaluation would (`folding_shares_calls`).
-/
import Formula.Proofs.Tree.Checked

namespace Formula

set_option autoImplicit false

/-- An inner node: an operator or a routine and the trees it is applied to. -/
structure Application where
  callee : Callee
  operands : List Tree

namespace Application

/-- The call it makes, once its operands have their values. -/
def call (slots : List Float) (a : Application) : Call :=
  ⟨a.callee, Tree.denoteAll slots a.operands⟩

/-- Whether there is no variable below it. -/
def isClosed (a : Application) : Bool := (Tree.slotsOfAll a.operands).isEmpty

/-- The same with folded operands. -/
def fold (a : Application) : Application := ⟨a.callee, (Tree.foldingAll a.operands).1⟩

theorem call_fold (slots : List Float) (a : Application) : a.fold.call slots = a.call slots := by
  simp only [call, fold, Tree.denoteAll_foldingAll]

theorem isClosed_fold (a : Application) : a.fold.isClosed = a.isClosed := by
  simp only [isClosed, fold, Tree.slotsOfAll_foldingAll]

end Application

namespace Tree

mutual

/-- The inner nodes of a tree, every node after those below it. -/
def applications : Tree → List Application
  | .constant _ => []
  | .slot _ => []
  | .apply o lhs rhs => lhs.applications ++ rhs.applications ++ [⟨.operator o, [lhs, rhs]⟩]
  | .call r arguments => applicationsOfAll arguments ++ [⟨.routine r, arguments⟩]

/-- The same for some trees, one after the other. -/
def applicationsOfAll : List Tree → List Application
  | [] => []
  | t :: ts => t.applications ++ applicationsOfAll ts

end

/-- The calls of the inner nodes, in this order. -/
def calls (slots : List Float) (t : Tree) : List Call :=
  t.applications.map (Application.call slots)

/-! ## Evaluation -/

mutual

/-- Evaluating makes one call for each application. -/
theorem evaluate_calls (slots : List Float) : ∀ (t : Tree) (w : Workspace),
    (t.evaluate slots w).2.calls.toList = w.calls.toList ++ t.calls slots
  | .constant _, w => (List.append_nil _).symm
  | .slot _, w => (List.append_nil _).symm
  | .apply o lhs rhs, w => by
      have left := evaluate_calls slots lhs w
      have right := evaluate_calls slots rhs (lhs.evaluate slots w).2
      have own : Application.call slots ⟨.operator o, [lhs, rhs]⟩ =
          ⟨.operator o, [lhs.denote slots, rhs.denote slots]⟩ := rfl
      simp only [calls] at left right
      simp only [evaluate, Workspace.record, Array.toList_push, right, left, evaluate_value, calls,
        applications, List.map_append, List.map_cons, List.map_nil, own, List.append_assoc]
  | .call r arguments, w => by
      have all := stageAll_calls slots arguments w
      have values := stagedSince_of_append (staged_stageAll slots arguments w)
      have own : Application.call slots ⟨.routine r, arguments⟩ =
          ⟨.routine r, denoteAll slots arguments⟩ := rfl
      simp only [evaluate, Workspace.record, Workspace.release, Array.toList_push, all, values,
        calls, applications, List.map_append, List.map_cons, List.map_nil, own, List.append_assoc]

/-- The arguments of a call make theirs one after the other. -/
theorem stageAll_calls (slots : List Float) : ∀ (ts : List Tree) (w : Workspace),
    (stageAll slots ts w).calls.toList =
      w.calls.toList ++ (applicationsOfAll ts).map (Application.call slots)
  | [], w => (List.append_nil _).symm
  | t :: ts, w => by
      have head := evaluate_calls slots t w
      have tail := stageAll_calls slots ts ((t.evaluate slots w).2.stage (t.evaluate slots w).1)
      simp only [calls] at head
      rw [stageAll, tail]
      simp only [Workspace.stage, head, applicationsOfAll, List.map_append, List.append_assoc]

end

/-! ## Folding -/

@[simp] theorem constant?_eq :
    (∀ value, (constant value).constant? = some value) ∧ (∀ index, (slot index).constant? = none) ∧
      (∀ o lhs rhs, (apply o lhs rhs).constant? = none) ∧
      ∀ r arguments, (call r arguments).constant? = none :=
  ⟨fun _ => rfl, fun _ => rfl, fun _ _ _ => rfl, fun _ _ => rfl⟩

mutual

/-- A tree without variables folds to its value, and any other to no constant. -/
theorem constant?_folding (slots : List Float) : ∀ t : Tree,
    t.folding.1.constant? = if t.slots = [] then some (t.denote slots) else none
  | .constant _ => rfl
  | .slot _ => rfl
  | .apply o lhs rhs => by
      have left := constant?_folding slots lhs
      have right := constant?_folding slots rhs
      simp only [folding, left, right, Tree.slots, denote, List.append_eq_nil_iff]
      by_cases inLeft : lhs.slots = [] <;> by_cases inRight : rhs.slots = [] <;>
        simp [inLeft, inRight]
  | .call r arguments => by
      have all := constants?_foldingAll slots arguments
      simp only [folding, all, Tree.slots, denote]
      by_cases inside : slotsOfAll arguments = [] <;> simp [inside]

/-- The same for some trees. -/
theorem constants?_foldingAll (slots : List Float) : ∀ ts : List Tree,
    constants? (foldingAll ts).1 =
      if slotsOfAll ts = [] then some (denoteAll slots ts) else none
  | [] => rfl
  | t :: ts => by
      have head := constant?_folding slots t
      have tail := constants?_foldingAll slots ts
      simp only [foldingAll, constants?, head, tail, slotsOfAll, denoteAll,
        List.append_eq_nil_iff]
      by_cases inHead : t.slots = [] <;> by_cases inTail : slotsOfAll ts = [] <;>
        simp [inHead, inTail]

end

/-- A node that is an application of some trees folds to one of the folded trees if
there is a variable below it, and to its value, with one call, if there is none. -/
theorem folding_apply (slots : List Float) (o : Operator) (lhs rhs : Tree) :
    (apply o lhs rhs).folding =
      if lhs.slots ++ rhs.slots = [] then
        (.constant (denote slots (.apply o lhs rhs)), lhs.foldCalls ++ rhs.foldCalls ++
          [Application.call slots ⟨.operator o, [lhs, rhs]⟩])
      else (.apply o lhs.fold rhs.fold, lhs.foldCalls ++ rhs.foldCalls) := by
  simp only [folding, constant?_folding slots, List.append_eq_nil_iff]
  by_cases inLeft : lhs.slots = [] <;> by_cases inRight : rhs.slots = [] <;>
    simp [inLeft, inRight, fold, foldCalls, denote, Application.call, denoteAll]

theorem folding_call (slots : List Float) (r : Routine) (arguments : List Tree) :
    (call r arguments).folding =
      if slotsOfAll arguments = [] then
        (.constant (denote slots (.call r arguments)), (foldingAll arguments).2 ++
          [Application.call slots ⟨.routine r, arguments⟩])
      else (.call r (foldingAll arguments).1, (foldingAll arguments).2) := by
  simp only [folding, constants?_foldingAll slots]
  by_cases inside : slotsOfAll arguments = [] <;> simp [inside, denote, Application.call]

theorem isClosed_operator (o : Operator) (lhs rhs : Tree) :
    Application.isClosed ⟨.operator o, [lhs, rhs]⟩ = (lhs.slots ++ rhs.slots).isEmpty := by
  simp only [Application.isClosed, slotsOfAll, List.append_nil]

theorem isClosed_routine (r : Routine) (arguments : List Tree) :
    Application.isClosed ⟨.routine r, arguments⟩ = (slotsOfAll arguments).isEmpty := rfl

mutual

/-- Folding makes the calls of the closed applications. -/
theorem foldCalls_eq (slots : List Float) : ∀ t : Tree,
    t.foldCalls = (t.applications.filter Application.isClosed).map (Application.call slots)
  | .constant _ => rfl
  | .slot _ => rfl
  | .apply o lhs rhs => by
      have left := foldCalls_eq slots lhs
      have right := foldCalls_eq slots rhs
      have own := isClosed_operator o lhs rhs
      rw [foldCalls, folding_apply slots]
      by_cases closed : lhs.slots ++ rhs.slots = [] <;>
        simp [closed, own, left, right, applications]
  | .call r arguments => by
      have all := foldingAll_calls slots arguments
      have own := isClosed_routine r arguments
      rw [foldCalls, folding_call slots]
      by_cases closed : slotsOfAll arguments = [] <;>
        simp [closed, own, all, applications]

/-- The same for some trees. -/
theorem foldingAll_calls (slots : List Float) : ∀ ts : List Tree,
    (foldingAll ts).2 =
      ((applicationsOfAll ts).filter Application.isClosed).map (Application.call slots)
  | [] => rfl
  | t :: ts => by
      have head := foldCalls_eq slots t
      have tail := foldingAll_calls slots ts
      rw [foldCalls] at head
      simp only [foldingAll, head, tail, applicationsOfAll, List.filter_append, List.map_append]

end

/-- Without variables, only a constant is left of a tree. -/
theorem applications_fold_of_closed {t : Tree} (closed : t.slots = []) :
    t.folding.1.applications = [] := by
  have constant := constant?_folding [] t
  rw [if_pos closed] at constant
  rw [eq_constant_of_constant? constant, applications]

theorem applicationsOfAll_of_closed {ts : List Tree} (closed : slotsOfAll ts = []) :
    applicationsOfAll (foldingAll ts).1 = [] := by
  induction ts with
  | nil => rfl
  | cons t ts ih =>
      obtain ⟨inHead, inTail⟩ := List.append_eq_nil_iff.mp closed
      simp only [foldingAll, applicationsOfAll, applications_fold_of_closed inHead, ih inTail,
        List.append_nil]

mutual

/-- The applications that are left after folding are those over variables, in the
same order. -/
theorem applications_fold : ∀ t : Tree, t.folding.1.applications =
    (t.applications.filter fun a => !a.isClosed).map Application.fold
  | .constant _ => rfl
  | .slot _ => rfl
  | .apply o lhs rhs => by
      have left := applications_fold lhs
      have right := applications_fold rhs
      have own := isClosed_operator o lhs rhs
      rw [folding_apply []]
      by_cases closed : lhs.slots ++ rhs.slots = []
      · obtain ⟨inLeft, inRight⟩ := List.append_eq_nil_iff.mp closed
        rw [applications_fold_of_closed inLeft] at left
        rw [applications_fold_of_closed inRight] at right
        simp [closed, own, applications, ← left, ← right]
      · simp [closed, own, applications, fold, left, right, Application.fold, foldingAll]
  | .call r arguments => by
      have all := applicationsOfAll_foldingAll arguments
      have own := isClosed_routine r arguments
      rw [folding_call []]
      by_cases closed : slotsOfAll arguments = []
      · rw [applicationsOfAll_of_closed closed] at all
        simp [closed, own, applications, ← all]
      · simp [closed, own, applications, all, Application.fold]

theorem applicationsOfAll_foldingAll : ∀ ts : List Tree, applicationsOfAll (foldingAll ts).1 =
    ((applicationsOfAll ts).filter fun a => !a.isClosed).map Application.fold
  | [] => rfl
  | t :: ts => by
      have head := applications_fold t
      have tail := applicationsOfAll_foldingAll ts
      simp only [foldingAll, head, tail, applicationsOfAll, List.filter_append, List.map_append]

end

/-! ## Sharing the calls -/

theorem fold_calls (slots : List Float) (t : Tree) : t.fold.calls slots =
    (t.applications.filter fun a => !a.isClosed).map (Application.call slots) := by
  rw [calls, fold, applications_fold, List.map_map]
  exact List.map_congr_left fun a _ => Application.call_fold slots a

/-- What is left of a tree after folding has no call for another folding to make. -/
theorem foldCalls_fold (t : Tree) : t.fold.foldCalls = [] := by
  rw [foldCalls_eq [], fold, applications_fold, List.map_eq_nil_iff, List.filter_eq_nil_iff]
  intro a member
  obtain ⟨b, inside, rfl⟩ := List.mem_map.mp member
  obtain ⟨-, isOpen⟩ := List.mem_filter.mp inside
  rw [Application.isClosed_fold]
  simpa using isOpen

/-- Evaluated in any workspace, the tree has its value, and nothing stops it on the way;
it leaves the buffer as it was, and makes these calls, in this order. -/
def Logs (slots : List Float) (t : Tree) (log : List Call) : Prop :=
  ∀ w : Workspace, ∃ after : Workspace, t.evaluate? slots w = some (t.denote slots, after) ∧
    t.evaluate slots w = (t.denote slots, after) ∧ after.staged = w.staged ∧
      after.calls.toList = w.calls.toList ++ log

theorem Filled.logs {t : Tree} {slots : List Float} (filled : t.Filled)
    (within : ∀ i ∈ t.slots, i < slots.length) : t.Logs slots (t.calls slots) := by
  intro w
  obtain ⟨value, staged⟩ := evaluate_eq slots t w
  have result : t.evaluate slots w = (t.denote slots, (t.evaluate slots w).2) :=
    Prod.ext value rfl
  refine ⟨(t.evaluate slots w).2, ?_, result, staged, evaluate_calls slots t w⟩
  rw [evaluate?_of_filled filled within w, ← result]

end Tree

/-- The last list has the entries of the other two, those of each in their order. -/
inductive Interleaves {α : Type} : List α → List α → List α → Prop where
  | nil : Interleaves [] [] []
  | left (a : α) {xs ys zs : List α} : Interleaves xs ys zs → Interleaves (a :: xs) ys (a :: zs)
  | right (a : α) {xs ys zs : List α} : Interleaves xs ys zs → Interleaves xs (a :: ys) (a :: zs)

/-- What is made of the elements of a list, for those with a property and for the
others, interleaves to what is made of all. -/
theorem interleaves_filter {α β : Type} (p : α → Bool) (f : α → β) (as : List α) :
    Interleaves ((as.filter p).map f) ((as.filter fun a => !p a).map f) (as.map f) := by
  induction as with
  | nil => exact .nil
  | cons a as ih =>
      by_cases has : p a = true
      · simp only [List.filter_cons, has, Bool.not_true, Bool.false_eq_true, if_true, if_false,
          List.map_cons]
        exact .left (f a) ih
      · simp only [List.filter_cons, has, Bool.not_false, Bool.false_eq_true, if_true, if_false,
          List.map_cons]
        exact .right (f a) ih

/-- Folding a tree and evaluating the folded tree share the calls of evaluating the
tree. Folding makes those of the nodes without a variable below them, once each, and
every evaluation of the folded tree makes those of the other nodes, once each and
with the same arguments; put together in order they are the calls of the tree.
Folding once more makes no call. Where a variable has no slot, both evaluations
stop. -/
theorem folding_shares_calls {t : Tree} (filled : t.Filled) (slots : List Float) :
    t.folding? = some (t.fold, t.foldCalls) ∧ t.fold.folding? = some (t.fold.fold, []) ∧
      Interleaves t.foldCalls (t.fold.calls slots) (t.calls slots) ∧
      t.foldCalls = (t.applications.filter fun a => a.isClosed).map (Application.call slots) ∧
      t.fold.calls slots =
        (t.applications.filter fun a => !a.isClosed).map (Application.call slots) ∧
      ((∀ i ∈ t.slots, i < slots.length) →
        t.Logs slots (t.calls slots) ∧ t.fold.Logs slots (t.fold.calls slots)) ∧
      (¬ (∀ i ∈ t.slots, i < slots.length) →
        ∀ w, t.evaluate? slots w = none ∧ t.fold.evaluate? slots w = none) := by
  have folded := Tree.foldCalls_eq slots t
  have residual := Tree.fold_calls slots t
  have sameSlots := Tree.slots_fold t
  refine ⟨Tree.folding?_of_filled filled, ?_, ?_, folded, residual, fun within => ?_,
    fun lacking w => ?_⟩
  · rw [Tree.folding?_of_filled filled.fold, ← Tree.foldCalls_fold t]
    rfl
  · rw [folded, residual]
    exact interleaves_filter Application.isClosed (Application.call slots) t.applications
  · exact ⟨filled.logs within, filled.fold.logs (by rwa [sameSlots])⟩
  · constructor
    · refine Option.eq_none_iff_forall_ne_some.mpr fun result evaluated => ?_
      exact lacking (Tree.within_of_evaluate? t w evaluated)
    · refine Option.eq_none_iff_forall_ne_some.mpr fun result evaluated => ?_
      have within := Tree.within_of_evaluate? t.fold w evaluated
      rw [sameSlots] at within
      exact lacking within

/-- In `first(1 + 2, x)` folding calls the sum, and every evaluation then calls the
routine only. -/
theorem folding_shares_calls_first :
    let sum : Operator := ⟨"+", 2, .left, fun a b => a + b, false⟩
    let first : Routine := ⟨"first", 2, fun values => values.headD 0.0, false⟩
    let t : Tree := .call first [.apply sum (.constant 1.0) (.constant 2.0), .slot 0]
    t.Filled ∧ t.foldCalls = [⟨.operator sum, [1.0, 2.0]⟩] ∧
      t.fold.calls [4.0] = [⟨.routine first, [1.0 + 2.0, 4.0]⟩] ∧
      Interleaves t.foldCalls (t.fold.calls [4.0]) (t.calls [4.0]) ∧
      t.Logs [4.0] (t.calls [4.0]) ∧ t.fold.Logs [4.0] (t.fold.calls [4.0]) := by
  intro sum first t
  have filled : t.Filled := .pair rfl (.apply sum (.constant _) (.constant _)) (.slot 0)
  have within : ∀ i ∈ t.slots, i < [4.0].length := by
    simp [t, Tree.slots, Tree.slotsOfAll]
  obtain ⟨-, -, shares, folded, residual, logs, -⟩ := folding_shares_calls filled [4.0]
  exact ⟨filled, folded.trans rfl, residual.trans rfl, shares, logs within⟩

end Formula
