/-
# Formula.Proofs.Tree.Checked — no slot out of range, no call with wrong arguments

`evaluate` gives zero for a slot that does not exist, and calls a routine with
whatever values there are. `evaluate?` stops at both instead, at the place where
it would happen; `folding?` does the same for the calls that folding makes.
A filled tree whose variables have slots never stops them
(`evaluate?_of_filled`, `folding?_of_filled`), and folding keeps it so
(`Filled.fold`, `slots_fold`) and makes it no higher (`height_fold`).
-/
import Formula.Proofs.Tree.Postorder
import Formula.Proofs.Tree.Value

namespace Formula.Tree

set_option autoImplicit false

/-! ## Checking as it goes -/

mutual

/-- Evaluate a tree unless a slot does not exist or a call has another number of
values than its routine takes. -/
def evaluate? (slots : List Float) : Tree → Workspace → Option (Float × Workspace)
  | .constant value, w => some (value, w)
  | .slot index, w => (slots[index]?).map fun value => (value, w)
  | .apply o lhs rhs, w =>
    (lhs.evaluate? slots w).bind fun (a, w) =>
      (rhs.evaluate? slots w).map fun (b, w) => (o.apply a b, w.record ⟨.operator o, [a, b]⟩)
  | .call r arguments, w =>
    (stageAll? slots arguments w).bind fun after =>
      let values := after.stagedSince w.staged.size
      if values.length = r.arity then
        some (r.apply values, (after.record ⟨.routine r, values⟩).release w.staged.size)
      else none

/-- The same for trees whose values are put aside. -/
def stageAll? (slots : List Float) : List Tree → Workspace → Option Workspace
  | [], w => some w
  | t :: ts, w =>
    (t.evaluate? slots w).bind fun (value, w) => stageAll? slots ts (w.stage value)

end

mutual

/-- Fold a tree unless a call has another number of values than its routine
takes. -/
def folding? : Tree → Option (Tree × List Call)
  | .constant value => some (.constant value, [])
  | .slot index => some (.slot index, [])
  | .apply o lhs rhs =>
    lhs.folding?.bind fun (lhs, before) => rhs.folding?.map fun (rhs, after) =>
      match lhs.constant?, rhs.constant? with
      | some a, some b => (.constant (o.apply a b), before ++ after ++ [⟨.operator o, [a, b]⟩])
      | _, _ => (.apply o lhs rhs, before ++ after)
  | .call r arguments =>
    (foldingAll? arguments).bind fun (arguments, before) =>
      match constants? arguments with
      | some values =>
        if values.length = r.arity then
          some (.constant (r.apply values), before ++ [⟨.routine r, values⟩])
        else none
      | none => some (.call r arguments, before)

/-- The same for some trees. -/
def foldingAll? : List Tree → Option (List Tree × List Call)
  | [] => some ([], [])
  | t :: ts =>
    t.folding?.bind fun (t, before) => (foldingAll? ts).map fun (ts, after) =>
      (t :: ts, before ++ after)

end

/-! ## Filled trees pass the checks -/

theorem length_denoteAll (slots : List Float) (ts : List Tree) :
    (denoteAll slots ts).length = ts.length := by
  induction ts with
  | nil => rfl
  | cons t ts ih => rw [denoteAll, List.length_cons, ih, List.length_cons]

theorem stageAll?_eq {slots : List Float} {ts : List Tree}
    (each : ∀ t ∈ ts, ∀ w, t.evaluate? slots w = some (t.evaluate slots w)) :
    ∀ w, stageAll? slots ts w = some (stageAll slots ts w) := by
  induction ts with
  | nil => exact fun _ => rfl
  | cons t ts ih =>
      intro w
      have later := ih fun u member => each u (List.mem_cons_of_mem _ member)
      simp only [stageAll?, each t (List.mem_cons_self ..), Option.bind_some, later, stageAll]

/-- Where every variable has a slot and every call its arguments, each slot that
is read exists, and each routine gets as many values as it takes. -/
theorem evaluate?_of_filled {slots : List Float} {t : Tree} (filled : t.Filled)
    (within : ∀ i ∈ t.slots, i < slots.length) :
    ∀ w, t.evaluate? slots w = some (t.evaluate slots w) := by
  induction filled with
  | constant value => exact fun _ => rfl
  | slot index =>
      have inside : index < slots.length := within index (by simp [Tree.slots])
      intro w
      rw [evaluate?, evaluate, slotValue, List.getElem?_eq_getElem inside]
      rfl
  | apply o _ _ ihl ihr =>
      have left := ihl fun i member => within i (List.mem_append_left _ member)
      have right := ihr fun i member => within i (List.mem_append_right _ member)
      intro w
      simp only [evaluate?, left, Option.bind_some, right, Option.map_some, evaluate]
  | @call r arguments count _ ih =>
      intro w
      have all := stageAll?_eq fun t inside => ih t inside fun i here =>
        within i (mem_slotsOfAll.mpr ⟨t, inside, here⟩)
      have staged := staged_stageAll slots arguments w
      have enough : ((stageAll slots arguments w).stagedSince w.staged.size).length =
          r.arity := by
        rw [stagedSince_of_append staged, length_denoteAll, count]
      simp only [evaluate?, all, Option.bind_some, enough, if_true, evaluate]

mutual

/-- An evaluation that does not stop has read a slot for every variable. -/
theorem within_of_evaluate? {slots : List Float} : ∀ (t : Tree) (w : Workspace)
    {result : Float × Workspace}, t.evaluate? slots w = some result →
    ∀ i ∈ t.slots, i < slots.length
  | .constant _, _, _, _ => by simp [Tree.slots]
  | .slot index, w, result, evaluated => by
      obtain ⟨value, found, -⟩ := Option.map_eq_some_iff.mp evaluated
      obtain ⟨inside, -⟩ := List.getElem?_eq_some_iff.mp found
      simpa [Tree.slots] using inside
  | .apply o lhs rhs, w, result, evaluated => by
      obtain ⟨left, isLeft, later⟩ := Option.bind_eq_some_iff.mp evaluated
      obtain ⟨right, isRight, -⟩ := Option.map_eq_some_iff.mp later
      intro i member
      rcases List.mem_append.mp member with inLeft | inRight
      · exact within_of_evaluate? lhs w isLeft i inLeft
      · exact within_of_evaluate? rhs left.2 isRight i inRight
  | .call r arguments, w, result, evaluated => by
      obtain ⟨after, staged, -⟩ := Option.bind_eq_some_iff.mp evaluated
      exact within_of_stageAll? arguments w staged

theorem within_of_stageAll? {slots : List Float} : ∀ (ts : List Tree) (w : Workspace)
    {after : Workspace}, stageAll? slots ts w = some after →
    ∀ i ∈ slotsOfAll ts, i < slots.length
  | [], _, _, _ => by simp [slotsOfAll]
  | t :: ts, w, after, staged => by
      obtain ⟨first, isFirst, later⟩ := Option.bind_eq_some_iff.mp staged
      intro i member
      rcases List.mem_append.mp member with inHead | inTail
      · exact within_of_evaluate? t w isFirst i inHead
      · exact within_of_stageAll? ts (first.2.stage first.1) later i inTail

end

theorem length_of_constants? {ts : List Tree} {values : List Float}
    (constants : constants? ts = some values) : values.length = ts.length := by
  rw [eq_map_of_constants? constants, List.length_map]

theorem length_foldingAll (ts : List Tree) : (foldingAll ts).1.length = ts.length := by
  induction ts with
  | nil => rfl
  | cons t ts ih => simp only [foldingAll, List.length_cons, ih]

theorem foldingAll?_eq {ts : List Tree}
    (each : ∀ t ∈ ts, t.folding? = some t.folding) : foldingAll? ts = some (foldingAll ts) := by
  induction ts with
  | nil => rfl
  | cons t ts ih =>
      have later := ih fun u member => each u (List.mem_cons_of_mem _ member)
      simp only [foldingAll?, each t (List.mem_cons_self ..), Option.bind_some, later,
        Option.map_some, foldingAll]

/-- The same for the calls that folding makes. -/
theorem folding?_of_filled {t : Tree} (filled : t.Filled) : t.folding? = some t.folding := by
  induction filled with
  | constant value => rfl
  | slot index => rfl
  | @apply o lhs rhs _ _ ihl ihr =>
      cases left : lhs.folding.1.constant? <;> cases right : rhs.folding.1.constant? <;>
        simp only [folding?, ihl, Option.bind_some, ihr, Option.map_some, folding, left, right]
  | @call r arguments count _ ih =>
      have all := foldingAll?_eq ih
      cases constants : constants? (foldingAll arguments).1 with
      | none => simp only [folding?, all, Option.bind_some, folding, constants]
      | some values =>
          have enough : values.length = r.arity := by
            rw [length_of_constants? constants, length_foldingAll, count]
          simp only [folding?, all, Option.bind_some, folding, constants, enough, if_true]

/-! ## Folding keeps a tree in shape -/

theorem mem_foldingAll {u : Tree} {ts : List Tree} (member : u ∈ (foldingAll ts).1) :
    ∃ t ∈ ts, u = t.fold := by
  induction ts with
  | nil => cases member
  | cons t ts ih =>
      simp only [foldingAll] at member
      rcases List.mem_cons.mp member with rfl | later
      · exact ⟨t, List.mem_cons_self .., rfl⟩
      · obtain ⟨v, inside, same⟩ := ih later
        exact ⟨v, List.mem_cons_of_mem _ inside, same⟩

/-- Folding makes a constant of a node or folds what is below it. -/
theorem fold_apply (o : Operator) (lhs rhs : Tree) :
    (∃ value, fold (.apply o lhs rhs) = .constant value) ∨
      fold (.apply o lhs rhs) = .apply o lhs.fold rhs.fold := by
  simp only [fold, folding]
  split
  · exact .inl ⟨_, rfl⟩
  · exact .inr rfl

theorem fold_call (r : Routine) (arguments : List Tree) :
    (∃ value, fold (.call r arguments) = .constant value) ∨
      fold (.call r arguments) = .call r (foldingAll arguments).1 := by
  simp only [fold, folding]
  split
  · exact .inl ⟨_, rfl⟩
  · exact .inr rfl

theorem Filled.fold {t : Tree} (filled : t.Filled) : t.fold.Filled := by
  induction filled with
  | constant value => exact .constant value
  | slot index => exact .slot index
  | @apply o lhs rhs _ _ ihl ihr =>
      rcases fold_apply o lhs rhs with ⟨value, same⟩ | same
      · rw [same]
        exact .constant value
      · rw [same]
        exact .apply o ihl ihr
  | @call r arguments size _ ih =>
      rcases fold_call r arguments with ⟨value, same⟩ | same
      · rw [same]
        exact .constant value
      · rw [same]
        refine .call r ((length_foldingAll arguments).trans size) fun u member => ?_
        obtain ⟨t, inside, rfl⟩ := mem_foldingAll member
        exact ih t inside

theorem Saturated.fold {t : Tree} (saturated : t.Saturated) : t.fold.Saturated := by
  induction saturated with
  | constant value => exact .constant value
  | slot index => exact .slot index
  | @apply o lhs rhs _ _ ihl ihr =>
      rcases fold_apply o lhs rhs with ⟨value, same⟩ | same
      · rw [same]
        exact .constant value
      · rw [same]
        exact .apply o ihl ihr
  | @call r arguments positive size _ ih =>
      rcases fold_call r arguments with ⟨value, same⟩ | same
      · rw [same]
        exact .constant value
      · rw [same]
        refine .call r positive ((length_foldingAll arguments).trans size) fun u member => ?_
        obtain ⟨t, inside, rfl⟩ := mem_foldingAll member
        exact ih t inside

theorem slotsOfAll_constants (values : List Float) : slotsOfAll (values.map .constant) = [] := by
  induction values with
  | nil => rfl
  | cons value values ih => rw [List.map_cons, slotsOfAll, ih, slots, List.nil_append]

mutual

theorem slots_folding : ∀ t : Tree, t.folding.1.slots = t.slots
  | .constant _ => rfl
  | .slot _ => rfl
  | .apply o lhs rhs => by
      have left := slots_folding lhs
      have right := slots_folding rhs
      simp only [folding, slots, ← left, ← right]
      split
      · rename_i a b isLeft isRight
        rw [eq_constant_of_constant? isLeft, eq_constant_of_constant? isRight]
        rfl
      · rfl
  | .call r arguments => by
      have all := slotsOfAll_foldingAll arguments
      simp only [folding, slots, ← all]
      split
      · rename_i values constants
        rw [eq_map_of_constants? constants, slotsOfAll_constants]
        rfl
      · rfl

theorem slotsOfAll_foldingAll : ∀ ts : List Tree, slotsOfAll (foldingAll ts).1 = slotsOfAll ts
  | [] => rfl
  | t :: ts => by
      have head := slots_folding t
      have tail := slotsOfAll_foldingAll ts
      simp only [foldingAll, slotsOfAll, head, tail]

end

/-- Folding keeps the variables, in their order. -/
theorem slots_fold (t : Tree) : t.fold.slots = t.slots := slots_folding t

theorem one_le_height (t : Tree) : 1 ≤ t.height := by
  cases t <;> simp [height]

theorem heightOfAll_foldingAll {ts : List Tree} (each : ∀ t ∈ ts, t.fold.height ≤ t.height) :
    heightOfAll (foldingAll ts).1 ≤ heightOfAll ts := by
  induction ts with
  | nil => exact Nat.le_refl _
  | cons t ts ih =>
      have head := each t (List.mem_cons_self ..)
      have tail := ih fun u member => each u (List.mem_cons_of_mem _ member)
      simp only [foldingAll, heightOfAll]
      rw [fold] at head
      omega

/-- Folding makes no tree higher. -/
theorem height_fold (t : Tree) : t.fold.height ≤ t.height := by
  induction t using induct with
  | constant value => exact Nat.le_refl _
  | slot index => exact Nat.le_refl _
  | apply o lhs rhs ihl ihr =>
      rcases fold_apply o lhs rhs with ⟨value, same⟩ | same
      · rw [same]
        exact one_le_height _
      · rw [same]
        simp only [height]
        omega
  | call r arguments ih =>
      rcases fold_call r arguments with ⟨value, same⟩ | same
      · rw [same]
        exact one_le_height _
      · rw [same]
        have below := heightOfAll_foldingAll ih
        simp only [height]
        omega

end Formula.Tree
