/-
# Formula.Proofs.Tree.Blocks — the tokens of the operands on the stack

Tokens that are all taken in by the assembly fall into blocks, one behind the
other, each the postorder of one complete tree. There is only one way to cut them
so (`Blocks.unique`), since without a limit on heights the postorders of trees,
read on top of any stack, leave these trees there and no others (`Grows`).

The blocks are those of the operands on the stack. What the assembly keeps with a
tree is said by its block: the height of the tree and the hull of the tokens, from
the least start to the greatest stop (`Kept`). It holds after each token, and the
fault for a second block bears the hull of that block (`blocks_kept_with_hulls`).
-/
import Formula.Proofs.Tree.Inversion

namespace Formula

set_option autoImplicit false

/-! ## Trees from their postorder, without a limit -/

namespace Forest

/-- The tokens put the trees on top of any stack. -/
def GrowsAll (tokens : List Token) (trees : List Tree) : Prop :=
  ∀ stack, growAll stack tokens = some (trees.reverse ++ stack)

/-- The tokens put the tree on top of any stack. -/
def Grows (tokens : List Token) (t : Tree) : Prop :=
  ∀ stack, growAll stack tokens = some (t :: stack)

theorem GrowsAll.nil : GrowsAll [] [] := fun _ => rfl

theorem Grows.cons {xs ys : List Token} {t : Tree} {ts : List Tree} (head : Grows xs t)
    (tail : GrowsAll ys ts) : GrowsAll (xs ++ ys) (t :: ts) := by
  intro stack
  rw [growAll_append, head, Option.bind_some, tail, List.reverse_cons, List.append_assoc,
    List.singleton_append]

/-- A token takes the trees it needs from the top and puts its node there. -/
theorem grow_of_makes {token : Token} {taken : List Tree} {node : Tree}
    (makes : Tree.Makes token.meaning taken node) (stack : List Tree) :
    grow (taken.reverse ++ stack) token = some (node :: stack) := by
  obtain ⟨meaning, span⟩ := token
  cases makes with
  | constant value => rfl
  | slot index => rfl
  | apply o lhs rhs => rfl
  | call r count =>
      have enough : ¬ (taken.reverse ++ stack).length < r.arity := by
        rw [List.length_append, List.length_reverse]
        omega
      simp only [grow, if_neg enough]
      rw [← count, ← List.length_reverse, List.take_left, List.drop_left, List.reverse_reverse]

theorem GrowsAll.makes {tokens : List Token} {token : Token} {taken : List Tree} {node : Tree}
    (operands : GrowsAll tokens taken) (makes : Tree.Makes token.meaning taken node) :
    Grows (tokens ++ [token]) node := by
  intro stack
  rw [growAll_append, operands, Option.bind_some]
  simp only [growAll, grow_of_makes makes, Option.bind_some]

theorem grows_postorder {t : Tree} (filled : t.Filled) :
    ∀ tokens : List Token, tokens.map Token.meaning = t.postorder → Grows tokens t :=
  Tree.postorder_induct GrowsAll.nil Grows.cons GrowsAll.makes filled

theorem growsAll_postorder {trees : List Tree} (filled : ∀ t ∈ trees, t.Filled) :
    ∀ tokens : List Token, tokens.map Token.meaning = Tree.postorderOfAll trees →
      GrowsAll tokens trees :=
  Tree.postorderOfAll_induct GrowsAll.nil Grows.cons fun t member =>
    grows_postorder (filled t member)

/-- Tokens put no other trees on a stack than those they put there. -/
theorem GrowsAll.unique {tokens : List Token} {ts us : List Tree} (left : GrowsAll tokens ts)
    (right : GrowsAll tokens us) : ts = us := by
  have same := Option.some.inj ((left []).symm.trans (right []))
  rwa [List.append_nil, List.append_nil, List.reverse_inj] at same

end Forest

/-! ## Blocks -/

/-- The tokens are the blocks one behind the other, and each block is the postorder of
one complete tree, however high. -/
structure Blocks (tokens : List Token) (blocks : List (List Token)) : Prop where
  whole : blocks.flatten = tokens
  complete : ∀ block ∈ blocks, ∃! t : Tree, t.Filled ∧ block.map Token.meaning = t.postorder

theorem Tree.postorderOfAll_eq_flatten (ts : List Tree) :
    postorderOfAll ts = (ts.map postorder).flatten := by
  induction ts with
  | nil => rfl
  | cons t ts ih => rw [postorderOfAll, ih, List.map_cons, List.flatten_cons]

theorem Tree.eq_of_postorder {t u : Tree} {block : List Token} (filledT : t.Filled)
    (filledU : u.Filled) (orderT : block.map Token.meaning = t.postorder)
    (orderU : block.map Token.meaning = u.postorder) : t = u := by
  have grows := (Forest.grows_postorder filledT block orderT []).symm.trans
    (Forest.grows_postorder filledU block orderU [])
  exact (List.cons.inj (Option.some.inj grows)).1

theorem Tree.Filled.complete {t : Tree} {block : List Token} (filled : t.Filled)
    (order : block.map Token.meaning = t.postorder) :
    ∃! t : Tree, t.Filled ∧ block.map Token.meaning = t.postorder :=
  ⟨t, ⟨filled, order⟩, fun _ ⟨filled', order'⟩ => eq_of_postorder filled' filled order' order⟩

namespace Blocks

variable {tokens : List Token} {blocks others : List (List Token)}

theorem nil : Blocks [] [] := ⟨rfl, by simp⟩

theorem concat {block : List Token} (cut : Blocks tokens blocks)
    (complete : ∃! t : Tree, t.Filled ∧ block.map Token.meaning = t.postorder) :
    Blocks (tokens ++ block) (blocks ++ [block]) where
  whole := by rw [List.flatten_append, cut.whole, List.flatten_singleton]
  complete := List.forall_mem_append.mpr ⟨cut.complete, List.forall_mem_singleton.mpr complete⟩

/-- The trees of the blocks. -/
theorem exists_trees
    (complete : ∀ block ∈ blocks, ∃! t : Tree, t.Filled ∧ block.map Token.meaning = t.postorder) :
    ∃ trees : List Tree, (∀ t ∈ trees, t.Filled) ∧
      blocks.map (List.map Token.meaning) = trees.map Tree.postorder := by
  induction blocks with
  | nil => exact ⟨[], by simp, rfl⟩
  | cons block blocks ih =>
      obtain ⟨first, later⟩ := List.forall_mem_cons.mp complete
      obtain ⟨t, ⟨filled, order⟩, -⟩ := first
      obtain ⟨trees, filledAll, orders⟩ := ih later
      refine ⟨t :: trees, List.forall_mem_cons.mpr ⟨filled, filledAll⟩, ?_⟩
      rw [List.map_cons, List.map_cons, order, orders]

/-- Tokens are cut into blocks in one way only: two cuts have the same trees, so their
blocks have the same lengths. -/
theorem unique (cut : Blocks tokens blocks) (other : Blocks tokens others) : blocks = others := by
  obtain ⟨ts, filledT, ordersT⟩ := exists_trees cut.complete
  obtain ⟨us, filledU, ordersU⟩ := exists_trees other.complete
  have growsT : Forest.GrowsAll tokens ts := by
    refine Forest.growsAll_postorder filledT tokens ?_
    rw [← cut.whole, List.map_flatten, ordersT, Tree.postorderOfAll_eq_flatten]
  have growsU : Forest.GrowsAll tokens us := by
    refine Forest.growsAll_postorder filledU tokens ?_
    rw [← other.whole, List.map_flatten, ordersU, Tree.postorderOfAll_eq_flatten]
  obtain rfl := growsT.unique growsU
  have lengths : blocks.map List.length = others.map List.length := by
    have same := congrArg (List.map List.length) (ordersT.trans ordersU.symm)
    simpa [Function.comp_def] using same
  exact List.eq_iff_flatten_eq.mpr ⟨cut.whole.trans other.whole.symm, lengths⟩

end Blocks

/-! ## What is kept with a block -/

/-- The smallest span over some tokens goes from their least start to their greatest stop. -/
theorem Span.Hulls.extremes {span : Span} {tokens : List Token} (hulls : span.Hulls tokens)
    (some_ : tokens ≠ []) :
    (tokens.map fun t => t.span.start).min? = some span.start ∧
      (tokens.map fun t => t.span.stop).max? = some span.stop := by
  have starts : (tokens.map fun t => t.span.start).min? ≠ none := by simpa using some_
  have stops : (tokens.map fun t => t.span.stop).max? ≠ none := by simpa using some_
  obtain ⟨start, isMin⟩ := Option.ne_none_iff_exists'.mp starts
  obtain ⟨stop, isMax⟩ := Option.ne_none_iff_exists'.mp stops
  obtain ⟨startOf, below⟩ := List.min?_eq_some_iff.mp isMin
  obtain ⟨stopOf, above⟩ := List.max?_eq_some_iff.mp isMax
  obtain ⟨early, inEarly, rfl⟩ := List.mem_map.mp startOf
  obtain ⟨late, inLate, rfl⟩ := List.mem_map.mp stopOf
  -- the span between the extremes covers all tokens, so the hull is no wider
  obtain ⟨startLe, stopLe⟩ := hulls.least ⟨early.span.start, late.span.stop⟩ fun t member =>
    ⟨below _ (List.mem_map_of_mem member), above _ (List.mem_map_of_mem member)⟩
  rw [isMin, isMax]
  exact ⟨congrArg some (Nat.le_antisymm startLe (hulls.covers early inEarly).1),
    congrArg some (Nat.le_antisymm (hulls.covers late inLate).2 stopLe)⟩

/-- What the assembly keeps with the tree of a block: its height, and the smallest span
that covers the tokens of the block, from their least start to their greatest stop. -/
structure Operand.Kept (block : List Token) (a : Operand) : Prop where
  filled : a.tree.Filled
  order : block.map Token.meaning = a.tree.postorder
  height : a.height = a.tree.height
  hulls : a.span.Hulls block
  start : (block.map fun t => t.span.start).min? = some a.span.start
  stop : (block.map fun t => t.span.stop).max? = some a.span.stop

/-- A postorder ends in the root. -/
theorem Tree.Filled.postorder_ne_nil {t : Tree} (filled : t.Filled) : t.postorder ≠ [] := by
  cases filled <;> simp [postorder]

namespace Assembly

variable {tokens block : List Token} {stack : List Operand} {a : Operand}

theorem Stands.kept (stands : Stands block a) : a.Kept block := by
  obtain ⟨order, filled, -⟩ := Tree.spells_singleton_iff.mp stands.spells
  have some_ : block ≠ [] := by
    rintro rfl
    exact filled.postorder_ne_nil order.symm
  obtain ⟨start, stop⟩ := stands.hulls.extremes some_
  exact ⟨filled, order, stands.height, stands.hulls, start, stop⟩

/-- The operands on the stack stand for consecutive blocks of the tokens, the newest
for the last one. -/
theorem Keeps.exists_blocks (keeps : Keeps tokens stack) :
    ∃ blocks, Blocks tokens blocks ∧ List.Forall₂ Operand.Kept blocks stack.reverse := by
  induction keeps with
  | nil => exact ⟨[], .nil, .nil⟩
  | @cons tokens block stack a _ stands ih =>
      obtain ⟨blocks, cut, kept⟩ := ih
      have here := stands.kept
      refine ⟨blocks ++ [block], cut.concat (here.filled.complete here.order), ?_⟩
      rw [List.reverse_cons]
      exact List.rel_append kept (.cons here .nil)

/-- What is taken in as a whole is taken in up to any place. -/
theorem exists_run_of_prefix {before : List Token} (ran : run [] tokens = .ok stack)
    (leads : before <+: tokens) : ∃ stack, run [] before = .ok stack := by
  obtain ⟨after, rfl⟩ := leads
  rw [run_append] at ran
  cases earlier : run [] before with
  | error fault =>
      rw [earlier] at ran
      cases ran
  | ok stack => exact ⟨stack, rfl⟩

end Assembly

/-! ## Faults of single tokens -/

/-- The faults of a token that is not taken in: it lacks operands, is no part of a
tree, or makes its tree too high. That there are no tokens is none of them. -/
inductive Fault.Misfit : Fault → Prop where
  | few (callee : String) (expected found : Nat) (span : Span) :
    Misfit (.missingArguments callee expected found span)
  | grouping (found : String × Span) : Misfit (.undefinedSymbol (some found))
  | high (limit : Nat) (span : Span) : Misfit (.tooDeep limit span)

theorem Tree.Stuck.misfit {trees : List Tree} {token : Token} {fault : Fault}
    (stuck : Tree.Stuck trees token fault) : fault.Misfit := by
  cases stuck with
  | fewOperands => exact .few ..
  | fewArguments => exact .few ..
  | grouping => exact .grouping _
  | high => exact .high ..

/-- If no token is at fault, all are taken in. -/
theorem Assembly.exists_run {tokens : List Token}
    (fits : ∀ fault, Tree.ofPostfix tokens = .error fault → ¬ fault.Misfit) :
    ∃ stack, Assembly.run [] tokens = .ok stack := by
  rcases Assembly.run_cases .nil tokens with ⟨stack, ran, -⟩ |
    ⟨before, after, token, trees, fault, -, -, stuck, failed⟩
  · exact ⟨stack, ran⟩
  · have fails : Tree.ofPostfix tokens = .error fault := by rw [Tree.ofPostfix, failed]
    exact absurd stuck.misfit (fits fault fails)

/-! ## The result -/

open Assembly (exists_run exists_run_of_prefix keeps_of_run) in
/-- Let no token be at fault where some tokens are assembled. Then there is exactly one
way to cut them into blocks, each the postorder of one complete tree. After any first
tokens, each operand on the stack is kept with the height of its tree and the hull of
its block. If there are two or more blocks, the fault bears the hull of the second. -/
theorem blocks_kept_with_hulls {tokens : List Token}
    (fits : ∀ fault, Tree.ofPostfix tokens = .error fault → ¬ fault.Misfit) :
    (∃! blocks, Blocks tokens blocks) ∧
      (∀ before, before <+: tokens → ∃ stack blocks, Assembly.run [] before = .ok stack ∧
        Blocks before blocks ∧ List.Forall₂ Operand.Kept blocks stack.reverse) ∧
      ∀ first second rest, Blocks tokens (first :: second :: rest) →
        ∃ a : Operand, a.Kept second ∧ Tree.ofPostfix tokens = .error (.constantsExcess a.span) := by
  obtain ⟨stack, ran⟩ := exists_run fits
  obtain ⟨blocks, cut, kept⟩ := (keeps_of_run ran).exists_blocks
  refine ⟨⟨blocks, cut, fun others other => other.unique cut⟩, fun before leads => ?_,
    fun first second rest several => ?_⟩
  · obtain ⟨stack', ran'⟩ := exists_run_of_prefix ran leads
    obtain ⟨blocks', cut', kept'⟩ := (keeps_of_run ran').exists_blocks
    exact ⟨stack', blocks', ran', cut', kept'⟩
  · obtain rfl := cut.unique several
    obtain ⟨oldest, others, -, keptRest, oldestFirst⟩ := List.forall₂_cons_left_iff.mp kept
    obtain ⟨a, newer, keptSecond, -, rfl⟩ := List.forall₂_cons_left_iff.mp keptRest
    refine ⟨a, keptSecond, ?_⟩
    rw [ofPostfix_of_kept ran, Assembly.finish, oldestFirst]

/-- In `1 2 3 +` the sum is left over. Its tokens stand in the source from the fourth
byte to the ninth, and the last of them is not the last there. -/
theorem blocks_kept_with_hulls_sum :
    let plus : Operator := ⟨"+", 2, .left, fun a b => a + b, false⟩
    let first : List Token := [⟨.constant 1.0, ⟨0, 1⟩⟩]
    let second : List Token :=
      [⟨.constant 2.0, ⟨4, 5⟩⟩, ⟨.constant 3.0, ⟨8, 9⟩⟩, ⟨.operator plus, ⟨6, 7⟩⟩]
    (∀ fault, Tree.ofPostfix (first ++ second) = .error fault → ¬ fault.Misfit) ∧
      (∃! blocks, Blocks (first ++ second) blocks) ∧ Blocks (first ++ second) [first, second] ∧
      Tree.ofPostfix (first ++ second) = .error (.constantsExcess ⟨4, 9⟩) ∧
      ∃ a : Operand, a.Kept second ∧ a.span = ⟨4, 9⟩ ∧ a.height = 2 := by
  intro plus first second
  have fails : Tree.ofPostfix (first ++ second) = .error (.constantsExcess ⟨4, 9⟩) := rfl
  have fits : ∀ fault, Tree.ofPostfix (first ++ second) = .error fault → ¬ fault.Misfit := by
    intro fault failed misfit
    obtain rfl := Except.error.inj (fails.symm.trans failed)
    cases misfit
  obtain ⟨sole, -, labelled⟩ := blocks_kept_with_hulls fits
  have filled : Tree.Filled (.apply plus (.constant 2.0) (.constant 3.0)) :=
    .apply plus (.constant 2.0) (.constant 3.0)
  have cut : Blocks (first ++ second) [first, second] :=
    (Blocks.nil.concat ((Tree.Filled.constant 1.0).complete rfl)).concat (filled.complete rfl)
  obtain ⟨a, kept, reported⟩ := labelled first second [] cut
  have tree : a.tree = .apply plus (.constant 2.0) (.constant 3.0) :=
    Tree.eq_of_postorder kept.filled filled kept.order rfl
  refine ⟨fits, sole, cut, fails, a, kept, ?_, ?_⟩
  · exact Fault.constantsExcess.inj (Except.error.inj (reported.symm.trans fails))
  · rw [kept.height, tree]
    rfl

end Formula
