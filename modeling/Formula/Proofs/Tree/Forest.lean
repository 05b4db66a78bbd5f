/-
# Formula.Proofs.Tree.Forest — assembling without a limit

The assembly keeps a span and a height with every operand and stops at the first
tree that is too high. `Forest.growAll` is the same work on trees alone, with no
limit; all that can stop it is a token that lacks operands, or one that is no
part of a tree.

Where it goes through, the height of the trees decides what the assembly does
(`run_of_growAll`): it gives these trees if none is too high, and else it fails
with `Fault.tooDeep` at one of the tokens. A tree that is too high cannot get
lost, since what takes it in is higher still (`heightOfAll_le_of_growAll`).
-/
import Formula.Proofs.Tree.Postorder

namespace Formula

set_option autoImplicit false

namespace Tree

theorem heightOfAll_le_iff {ts : List Tree} {n : Nat} :
    heightOfAll ts ≤ n ↔ ∀ t ∈ ts, t.height ≤ n := by
  induction ts with
  | nil => simp [heightOfAll]
  | cons t ts ih => simp only [heightOfAll, Nat.max_le, ih, List.forall_mem_cons]

theorem height_le_heightOfAll {t : Tree} {ts : List Tree} (member : t ∈ ts) :
    t.height ≤ heightOfAll ts :=
  heightOfAll_le_iff.mp (Nat.le_refl _) t member

end Tree

namespace Forest

/-- One token on a stack of trees, newest first; nothing if it lacks operands or
is no part of a tree. -/
def grow (stack : List Tree) (token : Token) : Option (List Tree) :=
  match token.meaning, stack with
  | .constant value, _ => some (.constant value :: stack)
  | .slot index, _ => some (.slot index :: stack)
  | .operator o, rhs :: lhs :: below => some (.apply o lhs rhs :: below)
  | .routine r, _ =>
    if stack.length < r.arity then none
    else some (.call r (stack.take r.arity).reverse :: stack.drop r.arity)
  | _, _ => none

/-- Tokens from left to right. -/
def growAll (stack : List Tree) : List Token → Option (List Tree)
  | [] => some stack
  | token :: rest => (grow stack token).bind fun stack => growAll stack rest

theorem growAll_append (stack : List Tree) (xs ys : List Token) :
    growAll stack (xs ++ ys) = (growAll stack xs).bind fun stack => growAll stack ys := by
  induction xs generalizing stack with
  | nil => rfl
  | cons token xs ih =>
      simp only [List.cons_append, growAll]
      cases grow stack token with
      | none => rfl
      | some stack => exact ih stack

/-- A tree takes some trees off the stack, and is higher than each of them. -/
theorem grow_cases {stack trees : List Tree} {token : Token}
    (grown : grow stack token = some trees) :
    ∃ (t : Tree) (taken below : List Tree), trees = t :: below ∧ stack = taken ++ below ∧
      ∀ u ∈ taken, u.height < t.height := by
  obtain ⟨meaning, span⟩ := token
  cases meaning with
  | constant value =>
      cases grown
      exact ⟨_, [], stack, rfl, rfl, by simp⟩
  | slot index =>
      cases grown
      exact ⟨_, [], stack, rfl, rfl, by simp⟩
  | operator o =>
      match stack, grown with
      | rhs :: lhs :: below, grown =>
          cases grown
          refine ⟨_, [rhs, lhs], below, rfl, rfl, fun u member => ?_⟩
          simp only [List.mem_cons, List.not_mem_nil, or_false] at member
          rcases member with rfl | rfl <;> simp only [Tree.height] <;> omega
  | routine r =>
      simp only [grow] at grown
      split at grown
      · cases grown
      · cases grown
        refine ⟨_, stack.take r.arity, stack.drop r.arity, rfl,
          (List.take_append_drop r.arity stack).symm, fun u member => ?_⟩
        have among := Tree.height_le_heightOfAll (List.mem_reverse.mpr member)
        simp only [Tree.height]
        omega
  | opening => cases grown
  | closing => cases grown
  | separator => cases grown

/-- No token takes the height of the highest tree away. -/
theorem heightOfAll_le_of_grow {stack trees : List Tree} {token : Token}
    (grown : grow stack token = some trees) : Tree.heightOfAll stack ≤ Tree.heightOfAll trees := by
  obtain ⟨t, taken, below, rfl, rfl, higher⟩ := grow_cases grown
  rw [Tree.heightOfAll_le_iff]
  intro u member
  rcases List.mem_append.mp member with inTaken | inBelow
  · have top := Tree.height_le_heightOfAll (List.mem_cons_self (a := t) (l := below))
    have lower := higher u inTaken
    omega
  · exact Tree.height_le_heightOfAll (List.mem_cons_of_mem t inBelow)

theorem heightOfAll_le_of_growAll {stack trees : List Tree} {tokens : List Token}
    (grown : growAll stack tokens = some trees) :
    Tree.heightOfAll stack ≤ Tree.heightOfAll trees := by
  induction tokens generalizing stack with
  | nil =>
      cases grown
      exact Nat.le_refl _
  | cons token rest ih =>
      obtain ⟨next, first, later⟩ := Option.bind_eq_some_iff.mp grown
      exact Nat.le_trans (heightOfAll_le_of_grow first) (ih later)

/-! ## The assembly beside it -/

/-- The heights kept with operands are those of their trees. -/
def Measured (operands : List Operand) : Prop := ∀ a ∈ operands, a.height = a.tree.height

/-- The assembly pushes the tree that grows, with its height. -/
theorem step_of_grow {operands : List Operand} {trees : List Tree} {token : Token}
    (measured : Measured operands) (grown : grow (operands.map Operand.tree) token = some trees) :
    ∃ (operand : Operand) (below : List Operand),
      trees = (operand :: below).map Operand.tree ∧ Measured (operand :: below) ∧
        Assembly.step operands token = Assembly.push below token.span operand := by
  have kept : ∀ below : List Operand, (∀ a ∈ below, a ∈ operands) → ∀ operand : Operand,
      operand.height = operand.tree.height → Measured (operand :: below) := by
    intro below inside operand height a member
    rcases List.mem_cons.mp member with rfl | later
    · exact height
    · exact measured a (inside a later)
  obtain ⟨meaning, span⟩ := token
  cases meaning with
  | constant value =>
      cases grown
      exact ⟨.leaf (.constant value) span, operands, rfl, kept _ (fun _ member => member) _ rfl,
        rfl⟩
  | slot index =>
      cases grown
      exact ⟨.leaf (.slot index) span, operands, rfl, kept _ (fun _ member => member) _ rfl, rfl⟩
  | operator o =>
      match operands, grown with
      | rhs :: lhs :: below, grown =>
          cases grown
          have left := measured lhs (by simp)
          have right := measured rhs (by simp)
          refine ⟨.apply o span lhs rhs, below, rfl, kept below ?_ _ ?_, rfl⟩
          · exact fun a member => List.mem_cons_of_mem _ (List.mem_cons_of_mem _ member)
          · simp only [Operand.apply, Tree.height, left, right]
  | routine r =>
      simp only [grow, List.length_map] at grown
      split at grown
      · cases grown
      · rename_i enough
        cases grown
        have heights : ∀ a ∈ (operands.take r.arity).reverse, a.height = a.tree.height :=
          fun a member => measured a (List.mem_of_mem_take (List.mem_reverse.mp member))
        refine ⟨.call r span (operands.take r.arity).reverse, operands.drop r.arity, ?_,
          kept _ (fun a member => List.mem_of_mem_drop member) _
            (Operand.call_height r span heights), ?_⟩
        · simp [Operand.call, List.map_take, List.map_drop]
        · simp only [Assembly.step, if_neg enough]
  | opening => cases grown
  | closing => cases grown
  | separator => cases grown

/-- What the assembly does where tokens grow into trees: it builds these trees, or
one of them is too high, and it stops at the token that makes a tree so. -/
theorem run_of_growAll {operands : List Operand} {trees : List Tree} {tokens : List Token}
    (measured : Measured operands)
    (low : Tree.heightOfAll (operands.map Operand.tree) ≤ Tree.maxHeight)
    (grown : growAll (operands.map Operand.tree) tokens = some trees) :
    (Tree.heightOfAll trees ≤ Tree.maxHeight →
        ∃ built, Assembly.run operands tokens = .ok built ∧ built.map Operand.tree = trees) ∧
      (Tree.maxHeight < Tree.heightOfAll trees → ∃ token ∈ tokens,
        Assembly.run operands tokens = .error (.tooDeep Tree.maxHeight token.span)) := by
  induction tokens generalizing operands with
  | nil =>
      cases grown
      exact ⟨fun _ => ⟨operands, rfl, rfl⟩, fun high => absurd high (Nat.not_lt.mpr low)⟩
  | cons token rest ih =>
      obtain ⟨next, first, later⟩ := Option.bind_eq_some_iff.mp grown
      obtain ⟨operand, below, rfl, measured', step⟩ := step_of_grow measured first
      have height : operand.height = operand.tree.height :=
        measured' operand (List.mem_cons_self ..)
      have belowLow : Tree.heightOfAll (below.map Operand.tree) ≤ Tree.maxHeight := by
        obtain ⟨t, taken, others, same, whole, -⟩ := grow_cases first
        obtain ⟨-, rfl⟩ := List.cons.inj same
        rw [Tree.heightOfAll_le_iff] at low ⊢
        exact fun u member => low u (by rw [whole]; exact List.mem_append_right _ member)
      rcases Nat.lt_or_ge Tree.maxHeight operand.height with high | fits
      · have stopped : Assembly.run operands (token :: rest) =
            .error (.tooDeep Tree.maxHeight token.span) := by
          rw [Assembly.run, step, Assembly.push_of_lt high]
        have stays := heightOfAll_le_of_growAll later
        simp only [List.map_cons, Tree.heightOfAll] at stays
        refine ⟨fun low => ?_, fun _ => ⟨token, List.mem_cons_self .., stopped⟩⟩
        omega
      · have goesOn : Assembly.run operands (token :: rest) =
            Assembly.run (operand :: below) rest := by
          rw [Assembly.run, step, Assembly.push_of_le fits]
        have lowNext : Tree.heightOfAll ((operand :: below).map Operand.tree) ≤ Tree.maxHeight := by
          simp only [List.map_cons, Tree.heightOfAll]
          omega
        obtain ⟨ok, fails⟩ := ih measured' lowNext later
        rw [goesOn]
        refine ⟨ok, fun high => ?_⟩
        obtain ⟨at_, member, error⟩ := fails high
        exact ⟨at_, List.mem_cons_of_mem _ member, error⟩

end Forest

end Formula
