/-
# Formula.Proofs.Tree.Postorder — building a tree from its postorder

The postorder of a tree lists the meanings of its nodes, every node after its
children. Tokens that spell it build the tree: read on top of any stack, they
leave the tree there and nothing else (`Builds`). The only thing that can stop
them is the height of the tree, and then the fault is `Fault.tooDeep`
(`builds_postorder`). The proof is by induction over such tokens, the last of which
makes a node of the trees that the others spell (`Makes`, `postorder_induct`).

The spans of the tokens play no part. A tree must be `Filled`: where a call had
more or fewer arguments than its routine takes, the routine would take the wrong
operands from the stack. The trees of formulas are `Saturated` besides, since no
routine that can be defined takes nothing.
-/
import Formula.Tree.Assembly

namespace Formula

set_option autoImplicit false

namespace Tree

mutual

/-- The meanings of the nodes of a tree, every node after its children. -/
def postorder : Tree → List Meaning
  | .constant value => [.constant value]
  | .slot index => [.slot index]
  | .apply o lhs rhs => lhs.postorder ++ rhs.postorder ++ [.operator o]
  | .call r arguments => postorderOfAll arguments ++ [.routine r]

/-- The same for some trees, one after the other. -/
def postorderOfAll : List Tree → List Meaning
  | [] => []
  | t :: ts => t.postorder ++ postorderOfAll ts

end

theorem mem_postorderOfAll {m : Meaning} {ts : List Tree} :
    m ∈ postorderOfAll ts ↔ ∃ t ∈ ts, m ∈ t.postorder := by
  induction ts with
  | nil => simp [postorderOfAll]
  | cons t ts ih => simp [postorderOfAll, ih]

theorem mem_slotsOfAll {i : Nat} {ts : List Tree} :
    i ∈ slotsOfAll ts ↔ ∃ t ∈ ts, i ∈ t.slots := by
  induction ts with
  | nil => simp [slotsOfAll]
  | cons t ts ih => simp [slotsOfAll, ih]

/-- The variables of a tree are in its postorder. -/
theorem slot_mem_postorder {t : Tree} {index : Nat} (member : index ∈ t.slots) :
    .slot index ∈ t.postorder := by
  induction t using induct with
  | constant value => simp [slots] at member
  | slot other => simpa [slots, postorder] using member
  | apply o lhs rhs ihl ihr =>
      rw [postorder]
      rcases List.mem_append.mp member with inLeft | inRight
      · exact List.mem_append_left _ (List.mem_append_left _ (ihl inLeft))
      · exact List.mem_append_left _ (List.mem_append_right _ (ihr inRight))
  | call r arguments ih =>
      obtain ⟨t, inside, here⟩ := mem_slotsOfAll.mp member
      rw [postorder]
      exact List.mem_append_left _ (mem_postorderOfAll.mpr ⟨t, inside, ih t inside here⟩)

/-- Every call has as many arguments as its routine takes. -/
inductive Filled : Tree → Prop where
  | constant (value : Float) : Filled (.constant value)
  | slot (index : Nat) : Filled (.slot index)
  | apply (o : Operator) {lhs rhs : Tree} :
    Filled lhs → Filled rhs → Filled (.apply o lhs rhs)
  | call (r : Routine) {arguments : List Tree} :
    arguments.length = r.arity → (∀ t ∈ arguments, Filled t) → Filled (.call r arguments)

theorem Filled.pair {r : Routine} {u v : Tree} (two : 2 = r.arity) (left : Filled u)
    (right : Filled v) : Filled (.call r [u, v]) :=
  .call r two (List.forall_mem_cons.mpr ⟨left, List.forall_mem_singleton.mpr right⟩)

/-- Every call has as many arguments as its routine takes, and at least one. -/
inductive Saturated : Tree → Prop where
  | constant (value : Float) : Saturated (.constant value)
  | slot (index : Nat) : Saturated (.slot index)
  | apply (o : Operator) {lhs rhs : Tree} :
    Saturated lhs → Saturated rhs → Saturated (.apply o lhs rhs)
  | call (r : Routine) {arguments : List Tree} :
    0 < r.arity → arguments.length = r.arity → (∀ t ∈ arguments, Saturated t) →
    Saturated (.call r arguments)

theorem Saturated.filled {t : Tree} (saturated : t.Saturated) : t.Filled := by
  induction saturated with
  | constant value => exact .constant value
  | slot index => exact .slot index
  | apply o _ _ left right => exact .apply o left right
  | call r _ count _ each => exact .call r count each

/-! ## One token more -/

/-- What a token makes of the trees it takes: a leaf, or a node over them. -/
inductive Makes : Meaning → List Tree → Tree → Prop where
  | constant (value : Float) : Makes (.constant value) [] (.constant value)
  | slot (index : Nat) : Makes (.slot index) [] (.slot index)
  | apply (o : Operator) (lhs rhs : Tree) : Makes (.operator o) [lhs, rhs] (.apply o lhs rhs)
  | call (r : Routine) {arguments : List Tree} :
    arguments.length = r.arity → Makes (.routine r) arguments (.call r arguments)

section Makes

variable {meaning : Meaning} {taken : List Tree} {node : Tree}

theorem Makes.postorder (makes : Makes meaning taken node) :
    node.postorder = postorderOfAll taken ++ [meaning] := by
  cases makes with
  | constant value => rfl
  | slot index => rfl
  | apply o lhs rhs => simp only [Tree.postorder, postorderOfAll, List.append_nil]
  | call r count => rfl

theorem Makes.height (makes : Makes meaning taken node) :
    node.height = heightOfAll taken + 1 := by
  cases makes with
  | constant value => rfl
  | slot index => rfl
  | apply o lhs rhs => simp only [Tree.height, heightOfAll, Nat.max_zero]
  | call r count => rfl

/-- The variables of what is taken are those of the node. -/
theorem Makes.slots (makes : Makes meaning taken node) :
    ∀ i ∈ slotsOfAll taken, i ∈ node.slots := by
  cases makes with
  | constant value => simp [slotsOfAll]
  | slot index => simp [slotsOfAll]
  | apply o lhs rhs => simp [slotsOfAll, Tree.slots]
  | call r count => exact fun i member => member

end Makes

section Induction

variable {one : List Token → Tree → Prop} {all : List Token → List Tree → Prop}

theorem postorderOfAll_induct (nil : all [] [])
    (cons : ∀ {xs ys : List Token} {t : Tree} {ts : List Tree},
      one xs t → all ys ts → all (xs ++ ys) (t :: ts))
    {trees : List Tree}
    (each : ∀ t ∈ trees, ∀ tokens : List Token, tokens.map Token.meaning = t.postorder →
      one tokens t) :
    ∀ tokens : List Token, tokens.map Token.meaning = postorderOfAll trees → all tokens trees := by
  induction trees with
  | nil =>
      intro tokens order
      obtain rfl := List.map_eq_nil_iff.mp order
      exact nil
  | cons t trees ih =>
      intro tokens order
      obtain ⟨xs, ys, rfl, first, later⟩ := List.map_eq_append_iff.mp order
      exact cons (each t (List.mem_cons_self ..) xs first)
        (ih (fun u member => each u (List.mem_cons_of_mem _ member)) ys later)

/-- What holds of the tokens of a node, if it holds of those of the trees it takes,
holds of the tokens in the postorder of any tree. -/
theorem postorder_induct (nil : all [] [])
    (cons : ∀ {xs ys : List Token} {t : Tree} {ts : List Tree},
      one xs t → all ys ts → all (xs ++ ys) (t :: ts))
    (node : ∀ {xs : List Token} {token : Token} {taken : List Tree} {t : Tree},
      all xs taken → Makes token.meaning taken t → one (xs ++ [token]) t)
    {t : Tree} (filled : t.Filled) :
    ∀ tokens : List Token, tokens.map Token.meaning = t.postorder → one tokens t := by
  induction filled with
  | constant value =>
      intro tokens order
      obtain ⟨token, rfl, meaning⟩ := List.map_eq_singleton_iff.mp order
      exact node nil (meaning ▸ .constant value)
  | slot index =>
      intro tokens order
      obtain ⟨token, rfl, meaning⟩ := List.map_eq_singleton_iff.mp order
      exact node nil (meaning ▸ .slot index)
  | @apply o lhs rhs _ _ ihl ihr =>
      intro tokens order
      obtain ⟨xs, last, rfl, operands, own⟩ := List.map_eq_append_iff.mp order
      obtain ⟨ls, rs, rfl, inLeft, inRight⟩ := List.map_eq_append_iff.mp operands
      obtain ⟨token, rfl, meaning⟩ := List.map_eq_singleton_iff.mp own
      have both : all (ls ++ rs) [lhs, rhs] := by
        have := cons (ihl ls inLeft) (cons (ihr rs inRight) nil)
        rwa [List.append_nil] at this
      exact node both (meaning ▸ .apply o lhs rhs)
  | call r count _ ih =>
      intro tokens order
      obtain ⟨xs, last, rfl, operands, own⟩ := List.map_eq_append_iff.mp order
      obtain ⟨token, rfl, meaning⟩ := List.map_eq_singleton_iff.mp own
      exact node (postorderOfAll_induct nil cons ih xs operands) (meaning ▸ .call r count)

end Induction

end Tree

namespace Operand

/-- The height kept with a call is that of its tree. -/
theorem call_height (r : Routine) (span : Span) {operands : List Operand}
    (heights : ∀ a ∈ operands, a.height = a.tree.height) :
    (Operand.call r span operands).height = (Operand.call r span operands).tree.height := by
  have from_ : ∀ (base : Nat), 1 ≤ base →
      operands.foldl (fun height a => max height (a.height + 1)) base =
        max base (Tree.heightOfAll (operands.map Operand.tree) + 1) := by
    induction operands with
    | nil =>
        intro base positive
        simp only [List.foldl_nil, List.map_nil, Tree.heightOfAll]
        omega
    | cons a operands ih =>
        intro base positive
        have head := heights a (List.mem_cons_self ..)
        have tail := ih fun b member => heights b (List.mem_cons_of_mem _ member)
        rw [List.foldl_cons, tail _ (by omega), head, List.map_cons, Tree.heightOfAll]
        omega
  simp only [Operand.call, Tree.height]
  rw [from_ 1 (Nat.le_refl _)]
  omega

end Operand

namespace Assembly

/-! ## Runs of the assembly -/

theorem run_singleton (stack : List Operand) (token : Token) :
    run stack [token] = step stack token := by
  rw [run]
  cases step stack token <;> rfl

theorem run_append (stack : List Operand) (xs ys : List Token) :
    run stack (xs ++ ys) = (run stack xs).bind fun stack => run stack ys := by
  induction xs generalizing stack with
  | nil => rfl
  | cons token xs ih =>
      simp only [List.cons_append, run]
      cases step stack token with
      | error fault => rfl
      | ok stack => exact ih stack

theorem push_of_le {operand : Operand} (low : operand.height ≤ Tree.maxHeight)
    (stack : List Operand) (span : Span) : push stack span operand = .ok (operand :: stack) :=
  if_neg (Nat.not_lt.mpr low)

/-- A leaf has the height one, so there is always room for it. -/
theorem push_leaf (stack : List Operand) (tree : Tree) (span : Span) :
    push stack span (.leaf tree span) = .ok (.leaf tree span :: stack) :=
  push_of_le (by simp [Operand.leaf, Tree.maxHeight]) stack span

theorem push_of_lt {operand : Operand} (high : Tree.maxHeight < operand.height)
    (stack : List Operand) (span : Span) :
    push stack span operand = .error (.tooDeep Tree.maxHeight span) := if_pos high

/-! ## The postorder builds the tree -/

/-- Some tokens put the given trees on any stack, or one of the trees is too
high, and they fail for that reason. -/
structure BuildsAll (ts : List Token) (trees : List Tree) : Prop where
  ok : Tree.heightOfAll trees ≤ Tree.maxHeight → ∃ operands : List Operand,
    operands.map Operand.tree = trees ∧ (∀ a ∈ operands, a.height = a.tree.height) ∧
      ∀ stack, run stack ts = .ok (operands.reverse ++ stack)
  tooDeep : Tree.maxHeight < Tree.heightOfAll trees → ∃ span,
    ∀ stack, run stack ts = .error (.tooDeep Tree.maxHeight span)

/-- The same for one tree. -/
structure Builds (ts : List Token) (t : Tree) : Prop where
  ok : t.height ≤ Tree.maxHeight → ∃ operand : Operand,
    operand.tree = t ∧ operand.height = t.height ∧
      ∀ stack, run stack ts = .ok (operand :: stack)
  tooDeep : Tree.maxHeight < t.height → ∃ span,
    ∀ stack, run stack ts = .error (.tooDeep Tree.maxHeight span)

theorem BuildsAll.nil : BuildsAll [] [] where
  ok _ := ⟨[], rfl, by simp, fun _ => rfl⟩
  tooDeep high := by simp [Tree.heightOfAll] at high

theorem BuildsAll.cons {ts us : List Token} {t : Tree} {trees : List Tree}
    (head : Builds ts t) (tail : BuildsAll us trees) : BuildsAll (ts ++ us) (t :: trees) where
  ok low := by
    simp only [Tree.heightOfAll] at low
    obtain ⟨operand, treeEq, heightEq, runs⟩ := head.ok (by omega)
    obtain ⟨operands, treesEq, heights, runsAll⟩ := tail.ok (by omega)
    refine ⟨operand :: operands, by simp [treeEq, treesEq], ?_, fun stack => ?_⟩
    · intro a member
      rcases List.mem_cons.mp member with rfl | later
      · rw [heightEq, treeEq]
      · exact heights a later
    · rw [run_append, runs]
      simp [Except.bind, runsAll]
  tooDeep high := by
    simp only [Tree.heightOfAll] at high
    by_cases first : Tree.maxHeight < t.height
    · obtain ⟨span, fails⟩ := head.tooDeep first
      exact ⟨span, fun stack => by rw [run_append, fails]; rfl⟩
    · obtain ⟨operand, _, _, runs⟩ := head.ok (by omega)
      obtain ⟨span, fails⟩ := tail.tooDeep (by omega)
      exact ⟨span, fun stack => by rw [run_append, runs]; exact fails _⟩

/-- Tokens that build the operands of a node, and a token that makes the node
from them, build the node. -/
theorem Builds.node {ts : List Token} {trees : List Tree} {token : Token} {t : Tree}
    (operands : BuildsAll ts trees) (height : t.height = Tree.heightOfAll trees + 1)
    (reads : ∀ operands : List Operand, operands.map Operand.tree = trees →
      (∀ a ∈ operands, a.height = a.tree.height) →
      ∃ operand : Operand, operand.tree = t ∧ operand.height = t.height ∧
        ∀ stack, step (operands.reverse ++ stack) token = push stack token.span operand) :
    Builds (ts ++ [token]) t where
  ok low := by
    obtain ⟨below, treesEq, heights, runs⟩ := operands.ok (by omega)
    obtain ⟨operand, treeEq, heightEq, made⟩ := reads below treesEq heights
    refine ⟨operand, treeEq, heightEq, fun stack => ?_⟩
    rw [run_append, runs]
    simp only [Except.bind, run_singleton, made]
    exact push_of_le (by omega) stack _
  tooDeep high := by
    by_cases early : Tree.maxHeight < Tree.heightOfAll trees
    · obtain ⟨span, fails⟩ := operands.tooDeep early
      exact ⟨span, fun stack => by rw [run_append, fails]; rfl⟩
    · obtain ⟨below, treesEq, heights, runs⟩ := operands.ok (by omega)
      obtain ⟨operand, _, heightEq, made⟩ := reads below treesEq heights
      refine ⟨token.span, fun stack => ?_⟩
      rw [run_append, runs]
      simp only [Except.bind, run_singleton, made]
      exact push_of_lt (by omega) stack _

/-- A token builds the node that it makes of its operands. -/
theorem BuildsAll.makes {ts : List Token} {token : Token} {taken : List Tree} {t : Tree}
    (operands : BuildsAll ts taken) (makes : Tree.Makes token.meaning taken t) :
    Builds (ts ++ [token]) t := by
  refine .node operands makes.height fun below trees heights => ?_
  obtain ⟨meaning, span⟩ := token
  cases makes with
  | constant value =>
      obtain rfl := List.map_eq_nil_iff.mp trees
      exact ⟨.leaf (.constant value) span, rfl, rfl, fun _ => rfl⟩
  | slot index =>
      obtain rfl := List.map_eq_nil_iff.mp trees
      exact ⟨.leaf (.slot index) span, rfl, rfl, fun _ => rfl⟩
  | apply o lhs rhs =>
      obtain ⟨a, others, rfl, rfl, rest⟩ := List.map_eq_cons_iff.mp trees
      obtain ⟨b, rfl, rfl⟩ := List.map_eq_singleton_iff.mp rest
      refine ⟨.apply o span a b, rfl, ?_, fun _ => rfl⟩
      simp only [Operand.apply, Tree.height, heights a (by simp), heights b (by simp)]
  | call r count =>
      subst trees
      rw [List.length_map] at count
      refine ⟨.call r span below, rfl, Operand.call_height r span heights, fun stack => ?_⟩
      have reaches : ¬ (below.reverse ++ stack).length < r.arity := by
        rw [List.length_append, List.length_reverse]
        omega
      simp only [step, if_neg reaches]
      simp [← count]

/-- Tokens in the postorder of a tree build the tree. -/
theorem builds_postorder {t : Tree} (filled : t.Filled) :
    ∀ ts : List Token, ts.map Token.meaning = t.postorder → Builds ts t :=
  Tree.postorder_induct BuildsAll.nil BuildsAll.cons BuildsAll.makes filled

theorem buildsAll_postorder {trees : List Tree} (filled : ∀ t ∈ trees, t.Filled) :
    ∀ ts : List Token, ts.map Token.meaning = Tree.postorderOfAll trees → BuildsAll ts trees :=
  Tree.postorderOfAll_induct BuildsAll.nil BuildsAll.cons fun t member =>
    builds_postorder (filled t member)

end Assembly

end Formula
