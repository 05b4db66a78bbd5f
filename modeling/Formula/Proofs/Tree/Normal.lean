/-
# Formula.Proofs.Tree.Normal — folding gives a normal form

One pass from the leaves up is enough: nothing is left to fold in a folded tree
(`isFolded_fold`), and a tree in which nothing is left to fold stays as it is
(`fold_of_isFolded`), so folding twice is folding once. A tree folds to a constant when
it has no variable and only then (`isConstant_fold_iff`), and no tree gets higher or
needs more room for its evaluation (`height_fold`, `stagingDepth_fold`).
-/
import Formula.Proofs.Tree.Calls
import Formula.Proofs.Tree.Moments

namespace Formula

set_option autoImplicit false

namespace Tree

/-! ## Nothing is left to fold -/

theorem isConstant_fold_iff (t : Tree) : t.fold.isConstant = true ↔ t.slots = [] := by
  rw [isConstant, fold, constant?_folding []]
  by_cases closed : t.slots = [] <;> simp [closed]

/-- Where every tree of some folds to a constant there is no variable. -/
theorem slotsOfAll_of_isConstant {ts : List Tree}
    (constants : ∀ u ∈ (foldingAll ts).1, u.isConstant = true) : slotsOfAll ts = [] := by
  induction ts with
  | nil => rfl
  | cons t ts ih =>
      have head := constants t.fold (List.mem_cons_self ..)
      have tail := ih fun u member => constants u (List.mem_cons_of_mem _ member)
      rw [slotsOfAll, (isConstant_fold_iff t).mp head, tail, List.append_nil]

/-- A node with a variable below it keeps an operand that is no constant. -/
theorem isFolded_fold (t : Tree) : t.fold.IsFolded := by
  induction t using induct with
  | constant value => exact .constant value
  | slot index => exact .slot index
  | apply o lhs rhs ihl ihr =>
      rw [fold, folding_apply []]
      by_cases closed : lhs.slots ++ rhs.slots = []
      · rw [if_pos closed]
        exact .constant _
      · rw [if_neg closed]
        refine .apply o ihl ihr ?_
        rintro ⟨left, right⟩
        exact closed (List.append_eq_nil_iff.mpr
          ⟨(isConstant_fold_iff lhs).mp left, (isConstant_fold_iff rhs).mp right⟩)
  | call r arguments ih =>
      rw [fold, folding_call []]
      by_cases closed : slotsOfAll arguments = []
      · rw [if_pos closed]
        exact .constant _
      · rw [if_neg closed]
        refine .call r (fun u member => ?_) fun constants => ?_
        · obtain ⟨t, inside, rfl⟩ := mem_foldingAll member
          exact ih t inside
        · exact closed (slotsOfAll_of_isConstant constants)

theorem foldingAll_of_fold {ts : List Tree} (each : ∀ t ∈ ts, t.fold = t) :
    (foldingAll ts).1 = ts := by
  induction ts with
  | nil => rfl
  | cons t ts ih =>
      have head := each t (List.mem_cons_self ..)
      have tail := ih fun u member => each u (List.mem_cons_of_mem _ member)
      rw [fold] at head
      simp only [foldingAll, head, tail]

/-- Folding leaves a tree as it is in which nothing is left to fold. -/
theorem fold_of_isFolded {t : Tree} (folded : t.IsFolded) : t.fold = t := by
  induction folded with
  | constant value => rfl
  | slot index => rfl
  | @apply o lhs rhs _ _ open_ ihl ihr =>
      have variable_ : ¬ lhs.slots ++ rhs.slots = [] := by
        intro closed
        obtain ⟨left, right⟩ := List.append_eq_nil_iff.mp closed
        rw [← isConstant_fold_iff, ihl] at left
        rw [← isConstant_fold_iff, ihr] at right
        exact open_ ⟨left, right⟩
      rw [fold, folding_apply [], if_neg variable_, ihl, ihr]
  | @call r arguments _ open_ ih =>
      have same := foldingAll_of_fold ih
      have variable_ : ¬ slotsOfAll arguments = [] := by
        intro closed
        refine open_ fun u member => ?_
        have none_ : u.slots = [] := by
          refine List.eq_nil_iff_forall_not_mem.mpr fun i inside => ?_
          have there := mem_slotsOfAll.mpr ⟨u, member, inside⟩
          rw [closed] at there
          cases there
        rwa [← isConstant_fold_iff, ih u member] at none_
      rw [fold, folding_call [], if_neg variable_, same]

theorem fold_fold (t : Tree) : t.fold.fold = t.fold := fold_of_isFolded t.isFolded_fold

/-! ## Measures -/

theorem largestSlot?_fold (t : Tree) : t.fold.largestSlot? = t.largestSlot? := by
  rw [largestSlot?, largestSlot?, slots_fold]

theorem stagingDepthFrom_foldingAll {ts : List Tree}
    (each : ∀ t ∈ ts, t.fold.stagingDepth ≤ t.stagingDepth) (waiting : Nat) :
    stagingDepthFrom waiting (foldingAll ts).1 ≤ stagingDepthFrom waiting ts := by
  induction ts generalizing waiting with
  | nil => exact Nat.le_refl _
  | cons t ts ih =>
      have head := each t (List.mem_cons_self ..)
      have tail := ih (fun u member => each u (List.mem_cons_of_mem _ member)) (waiting + 1)
      rw [fold] at head
      simp only [foldingAll, stagingDepthFrom]
      omega

/-- A folded tree puts no more values aside. -/
theorem stagingDepth_fold (t : Tree) : t.fold.stagingDepth ≤ t.stagingDepth := by
  induction t using induct with
  | constant value => exact Nat.le_refl _
  | slot index => exact Nat.le_refl _
  | apply o lhs rhs ihl ihr =>
      rcases fold_apply o lhs rhs with ⟨value, same⟩ | same
      · rw [same]
        exact Nat.zero_le _
      · rw [same]
        simp only [stagingDepth]
        omega
  | call r arguments ih =>
      rcases fold_call r arguments with ⟨value, same⟩ | same
      · rw [same]
        exact Nat.zero_le _
      · rw [same]
        have below := stagingDepthFrom_foldingAll ih 0
        have count := length_foldingAll arguments
        simp only [stagingDepth]
        omega

end Tree

/-- Every tree folds to one in which no node has constants only below it, and which
folding leaves as it is. It is a constant exactly if the tree has no variable, its
variables are those of the tree in their order, it is no higher, and it needs no more
room: evaluated from the same buffer it does not go beyond what the tree needs. -/
theorem folding_normalizes (t : Tree) :
    t.fold.IsFolded ∧ t.fold.fold = t.fold ∧ (t.fold.isConstant = true ↔ t.slots = []) ∧
      t.fold.slots = t.slots ∧ t.fold.largestSlot? = t.largestSlot? ∧
      t.fold.height ≤ t.height ∧ t.fold.stagingDepth ≤ t.stagingDepth ∧
      ∀ (slots : List Float) (staged : Array Float), t.Filled →
        (∀ i ∈ t.slots, i < slots.length) →
        t.folding? = some (t.fold, t.foldCalls) ∧
          ∃ top, t.fold.Peaks slots staged top ∧ top ≤ staged.size + t.stagingDepth := by
  refine ⟨t.isFolded_fold, t.fold_fold, t.isConstant_fold_iff, t.slots_fold,
    t.largestSlot?_fold, t.height_fold, t.stagingDepth_fold, ?_⟩
  intro slots staged filled within
  have within' : ∀ i ∈ t.fold.slots, i < slots.length := by
    rwa [Tree.slots_fold]
  exact ⟨Tree.folding?_of_filled filled, _, filled.fold.peaks within' staged,
    Nat.add_le_add_left t.stagingDepth_fold _⟩

/-- In `first(first(1, 2), x)` the inner call is folded: the height goes down from three
to two, and the buffer that held a value needs room for two more. -/
theorem folding_normalizes_first :
    let first : Routine := ⟨"first", 2, fun values => values.headD 0.0, false⟩
    let inner : Tree := .call first [.constant 1.0, .constant 2.0]
    let t : Tree := .call first [inner, .slot 0]
    t.Filled ∧ (∀ i ∈ t.slots, i < [4.0].length) ∧
      t.fold = .call first [.constant 1.0, .slot 0] ∧ t.fold.IsFolded ∧
      (t.height = 3 ∧ t.fold.height = 2) ∧
      ∃ top, t.fold.Peaks [4.0] #[7.0] top ∧ top ≤ 1 + 2 := by
  intro first inner t
  have innerFilled : inner.Filled := .pair rfl (.constant _) (.constant _)
  have filled : t.Filled := .pair rfl innerFilled (.slot 0)
  have within : ∀ i ∈ t.slots, i < [4.0].length := by
    simp [t, inner, Tree.slots, Tree.slotsOfAll]
  obtain ⟨folded, -, -, -, -, -, -, room⟩ := folding_normalizes t
  exact ⟨filled, within, rfl, folded, ⟨rfl, rfl⟩, (room [4.0] #[7.0] filled within).2⟩

end Formula
