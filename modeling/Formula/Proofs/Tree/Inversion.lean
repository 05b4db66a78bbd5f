/-
# Formula.Proofs.Tree.Inversion — the assembly undoes the postorder

Tokens spell some trees when their meanings are the postorders of these trees,
one after the other (`Tree.Spells`). The assembly reads such tokens, and keeps
the trees they spell on its stack, each with the height of its tree and the hull
of its own tokens (`Assembly.Keeps`). Any other tokens have a first one that does
not fit on the trees spelled before it. `Tree.Stuck` lists why it does not, with
the fault for each reason, and there the assembly stops (`run_cases`).

So tokens are assembled into a tree exactly if they spell it, whatever their
spans (`ofPostfix_eq_ok_iff`), and a fault comes from the first token that is
stuck, or from the number of trees at the end (`assembly_inverts_postorder`).
-/
import Formula.Proofs.Conversion.Conservation
import Formula.Proofs.Tree.Forest

namespace Formula

set_option autoImplicit false

/-! ## Hulls -/

namespace Span

theorem Covers.trans {s t u : Span} (first : s.Covers t) (second : t.Covers u) : s.Covers u :=
  ⟨Nat.le_trans first.1 second.1, Nat.le_trans second.2 first.2⟩

theorem Covers.antisymm {s t : Span} (left : s.Covers t) (right : t.Covers s) : s = t := by
  have starts : s.start = t.start := Nat.le_antisymm left.1 right.1
  have stops : s.stop = t.stop := Nat.le_antisymm right.2 left.2
  cases s
  cases t
  exact congr (congrArg Span.mk starts) stops

/-- The smallest span that covers some tokens. -/
structure Hulls (span : Span) (tokens : List Token) : Prop where
  covers : ∀ t ∈ tokens, span.Covers t.span
  least : ∀ other : Span, (∀ t ∈ tokens, other.Covers t.span) → other.Covers span

variable {s t : Span} {xs ys : List Token}

theorem Hulls.token (token : Token) : token.span.Hulls [token] where
  covers t member := by
    obtain rfl := List.mem_singleton.mp member
    exact ⟨Nat.le_refl _, Nat.le_refl _⟩
  least other covers := covers token (by simp)

theorem Hulls.append (left : s.Hulls xs) (right : t.Hulls ys) : (s.hull t).Hulls (xs ++ ys) where
  covers token member := by
    rcases List.mem_append.mp member with inLeft | inRight
    · exact (hull_covers_left s t).trans (left.covers token inLeft)
    · exact (hull_covers_right s t).trans (right.covers token inRight)
  least other covers :=
    covers_hull (left.least other fun token member => covers token (List.mem_append_left _ member))
      (right.least other fun token member => covers token (List.mem_append_right _ member))

/-- The order of the tokens plays no part. -/
theorem Hulls.comm (hulls : s.Hulls (xs ++ ys)) : s.Hulls (ys ++ xs) where
  covers token member := hulls.covers token (List.mem_append.mpr (List.mem_append.mp member).symm)
  least other covers := hulls.least other fun token member =>
    covers token (List.mem_append.mpr (List.mem_append.mp member).symm)

theorem Hulls.unique (left : s.Hulls xs) (right : t.Hulls xs) : s = t :=
  (right.least s left.covers).antisymm (left.least t right.covers)

end Span

namespace Tree

/-! ## What tokens spell -/

theorem postorderOfAll_append (ts us : List Tree) :
    postorderOfAll (ts ++ us) = postorderOfAll ts ++ postorderOfAll us := by
  induction ts with
  | nil => rfl
  | cons t ts ih => simp only [List.cons_append, postorderOfAll, ih, List.append_assoc]

theorem postorderOfAll_singleton (t : Tree) : postorderOfAll [t] = t.postorder :=
  List.append_nil _

/-- The tokens are the postorders of the trees, one after the other, and these are
trees that can be built. -/
structure Spells (tokens : List Token) (trees : List Tree) : Prop where
  order : tokens.map Token.meaning = postorderOfAll trees
  filled : ∀ t ∈ trees, t.Filled
  low : ∀ t ∈ trees, t.height ≤ maxHeight

theorem spells_nil : Spells [] [] := ⟨rfl, by simp, by simp⟩

/-- Only no tokens spell no trees. -/
theorem Spells.eq_nil {tokens : List Token} (spells : Spells tokens []) : tokens = [] :=
  List.map_eq_nil_iff.mp spells.order

theorem Spells.append {xs ys : List Token} {ts us : List Tree} (left : Spells xs ts)
    (right : Spells ys us) : Spells (xs ++ ys) (ts ++ us) where
  order := by rw [List.map_append, left.order, right.order, postorderOfAll_append]
  filled t member := (List.mem_append.mp member).elim (left.filled t) (right.filled t)
  low t member := (List.mem_append.mp member).elim (left.low t) (right.low t)

theorem spells_singleton_iff {tokens : List Token} {t : Tree} :
    Spells tokens [t] ↔
      tokens.map Token.meaning = t.postorder ∧ t.Filled ∧ t.height ≤ maxHeight := by
  constructor
  · rintro ⟨order, filled, low⟩
    exact ⟨order.trans (postorderOfAll_singleton t), filled t (by simp), low t (by simp)⟩
  · rintro ⟨order, filled, low⟩
    exact ⟨order.trans (postorderOfAll_singleton t).symm, by simpa using filled, by simpa using low⟩

/-! ## What a token makes -/

section Makes

variable {meaning : Meaning} {taken : List Tree} {node : Tree}

theorem Makes.filled (makes : Makes meaning taken node) (filled : ∀ t ∈ taken, t.Filled) :
    node.Filled := by
  cases makes with
  | constant value => exact .constant value
  | slot index => exact .slot index
  | apply o lhs rhs => exact .apply o (filled lhs (by simp)) (filled rhs (by simp))
  | call r count => exact .call r count filled

/-- Tokens and one that makes a node of the trees they spell, spell that node. -/
theorem Makes.spells {tokens : List Token} {token : Token} (makes : Makes token.meaning taken node)
    (spells : Spells tokens taken) (low : node.height ≤ maxHeight) :
    Spells (tokens ++ [token]) [node] := by
  refine spells_singleton_iff.mpr ⟨?_, makes.filled spells.filled, low⟩
  rw [List.map_append, spells.order, makes.postorder, List.map_singleton]

end Makes

/-! ## Tokens that do not fit -/

/-- Why a token does not fit on the trees before it, and the fault: it lacks
operands, it is no part of a tree, or its node would be one level too high. -/
inductive Stuck (trees : List Tree) (token : Token) : Fault → Prop where
  | fewOperands {o : Operator} : token.meaning = .operator o → trees.length < 2 →
    Stuck trees token (.missingArguments o.symbol 2 trees.length token.span)
  | fewArguments {r : Routine} : token.meaning = .routine r → trees.length < r.arity →
    Stuck trees token (.missingArguments r.name r.arity trees.length token.span)
  | grouping : token.category.isGrouping = true →
    Stuck trees token (.undefinedSymbol (some (token.meaning.describe, token.span)))
  | high {front taken : List Tree} {node : Tree} : trees = front ++ taken →
    Makes token.meaning taken node → node.height = maxHeight + 1 →
    Stuck trees token (.tooDeep maxHeight token.span)

end Tree

open Formula.Tree (Makes Spells Stuck)
open Forest (Measured)

namespace Assembly

/-! ## What the assembly keeps -/

/-- The trees on the stack in the order of their tokens. -/
def treesOf (stack : List Operand) : List Tree := (stack.map Operand.tree).reverse

theorem treesOf_append (taken below : List Operand) :
    treesOf (taken ++ below) = treesOf below ++ treesOf taken := by
  simp only [treesOf, List.map_append, List.reverse_append]

theorem treesOf_cons (a : Operand) (stack : List Operand) :
    treesOf (a :: stack) = treesOf stack ++ [a.tree] := treesOf_append [a] stack

theorem length_treesOf (stack : List Operand) : (treesOf stack).length = stack.length := by
  rw [treesOf, List.length_reverse, List.length_map]

/-- An operand is the tree its own tokens spell, with the height of the tree and the
hull of the tokens. -/
structure Stands (block : List Token) (a : Operand) : Prop where
  spells : Spells block [a.tree]
  height : a.height = a.tree.height
  hulls : a.span.Hulls block

/-- The tokens read so far are those of the operands on the stack, from the oldest
to the newest. -/
inductive Keeps : List Token → List Operand → Prop where
  | nil : Keeps [] []
  | cons {tokens block : List Token} {stack : List Operand} {a : Operand} :
    Keeps tokens stack → Stands block a → Keeps (tokens ++ block) (a :: stack)

variable {tokens : List Token} {stack : List Operand}

theorem Keeps.spells (keeps : Keeps tokens stack) : Spells tokens (treesOf stack) := by
  induction keeps with
  | nil => exact Tree.spells_nil
  | cons _ stands ih =>
      rw [treesOf_cons]
      exact ih.append stands.spells

theorem Keeps.measured (keeps : Keeps tokens stack) : Measured stack := by
  induction keeps with
  | nil =>
      intro a member
      cases member
  | cons _ stands ih =>
      intro a member
      rcases List.mem_cons.mp member with rfl | below
      · exact stands.height
      · exact ih a below

/-- The tokens of the newer operands come after those of the older ones. -/
theorem Keeps.split {taken below : List Operand} (keeps : Keeps tokens (taken ++ below)) :
    ∃ front back, tokens = front ++ back ∧ Keeps front below ∧ Keeps back taken := by
  induction taken generalizing tokens with
  | nil => exact ⟨tokens, [], (List.append_nil tokens).symm, keeps, .nil⟩
  | cons a taken ih =>
      cases keeps with
      | cons inner stands =>
          obtain ⟨front, back, rfl, older, newer⟩ := ih inner
          exact ⟨front, back ++ _, List.append_assoc .., older, newer.cons stands⟩

/-- The hull of a call is taken over its arguments one by one. -/
theorem Keeps.hulls {span : Span} {own : List Token} (keeps : Keeps tokens stack)
    (hulls : span.Hulls own) :
    (stack.reverse.foldl (fun hull a => hull.hull a.span) span).Hulls (own ++ tokens) := by
  induction keeps with
  | nil => rwa [List.append_nil]
  | cons _ stands ih =>
      rw [List.reverse_cons, List.foldl_append, ← List.append_assoc]
      exact ih.append stands.hulls

/-! ## One token -/

/-- A token is stuck, or the assembly pushes what it makes of the newest operands. -/
theorem step_cases (measured : Measured stack) (token : Token) :
    (∃ fault, Stuck (treesOf stack) token fault ∧ step stack token = .error fault) ∨
      ∃ (taken below : List Operand) (a : Operand), stack = taken ++ below ∧
        Makes token.meaning (treesOf taken) a.tree ∧ a.height = a.tree.height ∧
        (∀ block, Keeps block taken → a.span.Hulls (block ++ [token])) ∧
        step stack token = push below token.span a := by
  have leaf : ∀ block, Keeps block [] → token.span.Hulls (block ++ [token]) := by
    rintro block ⟨⟩
    exact .token token
  obtain ⟨meaning, span⟩ := token
  cases meaning with
  | constant value =>
      exact .inr ⟨[], stack, .leaf (.constant value) span, rfl, .constant value, rfl, leaf, rfl⟩
  | slot index =>
      exact .inr ⟨[], stack, .leaf (.slot index) span, rfl, .slot index, rfl, leaf, rfl⟩
  | operator o =>
      match stack with
      | [] => exact .inl ⟨_, .fewOperands rfl (by decide), rfl⟩
      | [_] => exact .inl ⟨_, .fewOperands rfl (by simp [treesOf]), rfl⟩
      | rhs :: lhs :: below =>
          refine .inr ⟨[rhs, lhs], below, .apply o span lhs rhs, rfl, .apply o lhs.tree rhs.tree,
            ?_, fun block keeps => ?_, rfl⟩
          · simp only [Operand.apply, Tree.height, measured lhs (by simp), measured rhs (by simp)]
          · exact (keeps.hulls (.token ⟨.operator o, span⟩)).comm
  | routine r =>
      by_cases few : stack.length < r.arity
      · left
        have length := length_treesOf stack
        refine ⟨_, .fewArguments rfl (by omega), ?_⟩
        simp only [step, if_pos few, length]
      · right
        refine ⟨stack.take r.arity, stack.drop r.arity, .call r span (stack.take r.arity).reverse,
          (List.take_append_drop r.arity stack).symm, ?_, ?_, fun block keeps => ?_, ?_⟩
        · rw [treesOf, ← List.map_reverse]
          refine .call r ?_
          rw [List.length_map, List.length_reverse, List.length_take]
          omega
        · exact Operand.call_height r span fun a member =>
            measured a (List.mem_of_mem_take (List.mem_reverse.mp member))
        · exact (keeps.hulls (.token ⟨.routine r, span⟩)).comm
        · simp only [step, if_neg few]
  | opening => exact .inl ⟨_, .grouping rfl, rfl⟩
  | closing => exact .inl ⟨_, .grouping rfl, rfl⟩
  | separator => exact .inl ⟨_, .grouping rfl, rfl⟩

/-- A node that is too high for the operands it takes is not pushed. -/
theorem step_of_high {taken below : List Operand} {token : Token} {node : Tree}
    (measured : Measured taken)
    (makes : Makes token.meaning (treesOf taken) node) (high : Tree.maxHeight < node.height) :
    step (taken ++ below) token = .error (.tooDeep Tree.maxHeight token.span) := by
  obtain ⟨meaning, span⟩ := token
  generalize trees : treesOf taken = ts at makes
  cases makes with
  | constant value => simp [Tree.height, Tree.maxHeight] at high
  | slot index => simp [Tree.height, Tree.maxHeight] at high
  | apply o lhs rhs =>
      rw [treesOf, List.reverse_eq_iff] at trees
      obtain ⟨b, others, rfl, rfl, rest⟩ := List.map_eq_cons_iff.mp trees
      obtain ⟨a, rfl, rfl⟩ := List.map_eq_singleton_iff.mp rest
      refine push_of_lt ?_ below span
      simp only [Tree.height] at high
      simp only [Operand.apply, measured a (by simp), measured b (by simp)]
      exact high
  | @call r _ count =>
      subst trees
      rw [length_treesOf] at count
      have enough : ¬ (taken ++ below).length < r.arity := by
        rw [List.length_append]
        omega
      have height : (Operand.call r span taken.reverse).height =
          (Operand.call r span taken.reverse).tree.height :=
        Operand.call_height r span fun a member => measured a (List.mem_reverse.mp member)
      simp only [step, if_neg enough]
      rw [← count, List.take_left, List.drop_left]
      refine push_of_lt ?_ below span
      rw [height, Operand.call, List.map_reverse]
      exact high

/-- A node over trees that are low enough, but itself too high, is stopped at its
own token. -/
theorem run_node_of_lt {ts : List Token} {trees : List Tree} {token : Token} {t : Tree}
    (operands : BuildsAll ts trees) (low : Tree.heightOfAll trees ≤ Tree.maxHeight)
    (makes : Makes token.meaning trees t) (high : Tree.maxHeight < t.height) :
    run [] (ts ++ [token]) = .error (.tooDeep Tree.maxHeight token.span) := by
  obtain ⟨below, rfl, heights, runs⟩ := operands.ok low
  have measured : Measured below.reverse := fun a member => heights a (List.mem_reverse.mp member)
  have same : treesOf below.reverse = below.map Operand.tree := by
    rw [treesOf, List.map_reverse, List.reverse_reverse]
  rw [run_append, runs]
  simp only [Except.bind, run_singleton]
  exact step_of_high measured (same ▸ makes) high

/-- A token that is stuck stops the assembly with its fault. -/
theorem step_of_stuck {token : Token} {fault : Fault}
    (measured : Measured stack) (stuck : Stuck (treesOf stack) token fault) :
    step stack token = .error fault := by
  have length := length_treesOf stack
  cases stuck with
  | @fewOperands o meaning few =>
      rw [length] at few ⊢
      match stack, few with
      | [], _ => simp [step, meaning]
      | [_], _ => simp [step, meaning]
  | @fewArguments r meaning few =>
      rw [length] at few ⊢
      simp only [step, meaning, if_pos few]
  | grouping isGrouping =>
      obtain ⟨meaning, span⟩ := token
      cases meaning with
      | opening => rfl
      | closing => rfl
      | separator => rfl
      | _ => cases isGrouping
  | @high front trees node whole makes height =>
      rw [treesOf, List.reverse_eq_iff, List.reverse_append] at whole
      obtain ⟨taken, below, rfl, takes, -⟩ := List.map_eq_append_iff.mp whole
      rw [← List.reverse_eq_iff] at takes
      subst takes
      refine step_of_high (fun a member => measured a (List.mem_append_left _ member)) makes ?_
      omega

/-- A token after those of the operands is stuck, or stands with the tokens it takes
for a new operand. -/
theorem step_keeps (keeps : Keeps tokens stack) (token : Token) :
    (∃ fault, Stuck (treesOf stack) token fault ∧ step stack token = .error fault) ∨
      ∃ next, step stack token = .ok next ∧ Keeps (tokens ++ [token]) next := by
  rcases step_cases keeps.measured token with stuck |
    ⟨taken, below, a, rfl, makes, height, hulls, steps⟩
  · exact .inl stuck
  · obtain ⟨front, back, rfl, older, newer⟩ := keeps.split
    by_cases high : Tree.maxHeight < a.height
    · left
      -- What it takes is not too high, so it is so by one level.
      have low := Tree.heightOfAll_le_iff.mpr newer.spells.low
      have above := makes.height
      exact ⟨_, .high (treesOf_append taken below) makes (by omega),
        steps.trans (push_of_lt high below token.span)⟩
    · right
      refine ⟨a :: below, steps.trans (push_of_le (Nat.le_of_not_lt high) below token.span), ?_⟩
      rw [List.append_assoc]
      exact older.cons ⟨makes.spells newer.spells (by omega), height, hulls back newer⟩

/-! ## All tokens -/

/-- Tokens are kept as operands, or the assembly stops at the first one that is stuck
on the trees spelled before it. -/
theorem run_cases (keeps : Keeps tokens stack) (rest : List Token) :
    (∃ final, run stack rest = .ok final ∧ Keeps (tokens ++ rest) final) ∨
      ∃ (before after : List Token) (token : Token) (trees : List Tree) (fault : Fault),
        rest = before ++ token :: after ∧ Spells (tokens ++ before) trees ∧
          Stuck trees token fault ∧ run stack rest = .error fault := by
  induction rest generalizing tokens stack with
  | nil => exact .inl ⟨stack, rfl, by rwa [List.append_nil]⟩
  | cons token rest ih =>
      rw [run]
      rcases step_keeps keeps token with ⟨fault, stuck, stops⟩ | ⟨next, goesOn, keeps'⟩
      · right
        rw [stops]
        refine ⟨[], rest, token, treesOf stack, fault, rfl, ?_, stuck, rfl⟩
        rw [List.append_nil]
        exact keeps.spells
      · rw [goesOn]
        rcases ih keeps' with ⟨final, ran, all⟩ |
          ⟨before, after, other, trees, fault, rfl, earlier, stuck, failed⟩
        · left
          exact ⟨final, ran, by rwa [List.append_assoc] at all⟩
        · right
          rw [List.append_assoc] at earlier
          exact ⟨token :: before, after, other, trees, fault, rfl, earlier, stuck, failed⟩

/-- Tokens that are all taken in are kept as operands. -/
theorem keeps_of_run (ran : run [] tokens = .ok stack) : Keeps tokens stack := by
  rcases run_cases .nil tokens with ⟨final, ran', keeps⟩ |
    ⟨before, after, token, trees, fault, -, -, -, failed⟩
  · obtain rfl := Except.ok.inj (ran.symm.trans ran')
    exact keeps
  · cases ran.symm.trans failed

/-- Tokens that spell trees are kept as operands with these trees. -/
theorem exists_run_of_spells {trees : List Tree} (spells : Spells tokens trees) :
    ∃ stack, run [] tokens = .ok stack ∧ treesOf stack = trees ∧ Keeps tokens stack := by
  have builds := buildsAll_postorder spells.filled tokens spells.order
  obtain ⟨operands, treesEq, -, runs⟩ := builds.ok (Tree.heightOfAll_le_iff.mpr spells.low)
  have ran : run [] tokens = .ok operands.reverse := by
    simpa using runs []
  refine ⟨operands.reverse, ran, ?_, keeps_of_run ran⟩
  rw [treesOf, List.map_reverse, List.reverse_reverse, treesEq]

theorem run_of_stuck {before after : List Token} {token : Token} {trees : List Tree}
    {fault : Fault} (spells : Spells before trees) (stuck : Stuck trees token fault) :
    run [] (before ++ token :: after) = .error fault := by
  obtain ⟨stack, ran, rfl, keeps⟩ := exists_run_of_spells spells
  rw [run_append, ran]
  simp only [Except.bind, run, step_of_stuck keeps.measured stuck]

/-- The tokens of the two oldest operands come first. -/
theorem Keeps.oldest {newer : List Operand} {a b : Operand}
    (keeps : Keeps tokens (newer ++ [b, a])) :
    ∃ first second rest, tokens = first ++ second ++ rest ∧ Stands first a ∧ Stands second b ∧
      Keeps rest newer := by
  obtain ⟨front, rest, rfl, older, kept⟩ := keeps.split
  cases older with
  | cons inner standsB =>
      cases inner with
      | cons nothing standsA =>
          cases nothing
          exact ⟨_, _, rest, rfl, standsA, standsB, kept⟩

/-- Of several operands the second is reported. -/
theorem finish_of_oldest {newer : List Operand} (a b : Operand) :
    finish (newer ++ [b, a]) = .error (.constantsExcess b.span) := by
  simp [finish]

end Assembly

/-! ## The result -/

open Assembly (Keeps exists_run_of_spells finish finish_of_oldest run_cases run_of_stuck treesOf)

namespace Tree

/-- Why tokens are assembled into no tree, and the fault: one is stuck, there are none,
or they spell several trees, of which the second is reported. -/
inductive Refused (tokens : List Token) : Fault → Prop where
  | stuck {before after : List Token} {token : Token} {trees : List Tree} {fault : Fault} :
    tokens = before ++ token :: after → Spells before trees → Stuck trees token fault →
    Refused tokens fault
  | nothing : tokens = [] → Refused tokens (.undefinedSymbol none)
  | excess {first second rest : List Token} {t u : Tree} {others : List Tree} {span : Span} :
    tokens = first ++ second ++ rest → Spells first [t] → Spells second [u] →
    Spells rest others → span.Hulls second → Refused tokens (.constantsExcess span)

end Tree

variable {tokens : List Token}

theorem ofPostfix_of_kept {stack : List Operand} (ran : Assembly.run [] tokens = .ok stack) :
    Tree.ofPostfix tokens = finish stack := by
  rw [Tree.ofPostfix, ran]

/-- Tokens are assembled into a tree exactly if they spell it. -/
theorem ofPostfix_eq_ok_iff {t : Tree} : Tree.ofPostfix tokens = .ok t ↔ Spells tokens [t] := by
  constructor
  · intro built
    rcases run_cases .nil tokens with ⟨stack, ran, keeps⟩ |
      ⟨before, after, token, trees, fault, -, -, -, failed⟩
    · rw [ofPostfix_of_kept ran, finish] at built
      have spells := keeps.spells
      rw [treesOf, ← List.map_reverse] at spells
      split at built
      · cases built
      · rename_i root alone
        cases built
        rwa [alone] at spells
      · cases built
    · rw [Tree.ofPostfix, failed] at built
      cases built
  · intro spells
    obtain ⟨stack, ran, trees, -⟩ := exists_run_of_spells spells
    rw [treesOf, ← List.map_reverse] at trees
    obtain ⟨root, alone, rfl⟩ := List.map_eq_singleton_iff.mp trees
    rw [ofPostfix_of_kept ran, finish, alone]

/-- Two spellings of one tree that tokens start with are the same tokens. -/
theorem Spells.head_eq {xs xs' ys ys' : List Token} {t : Tree} (spells : Spells xs [t])
    (spells' : Spells xs' [t]) (same : xs ++ ys = xs' ++ ys') : xs = xs' ∧ ys = ys' := by
  refine List.append_inj same ?_
  have order := congrArg List.length (spells.order.trans spells'.order.symm)
  rwa [List.length_map, List.length_map] at order

/-- Tokens are refused for the reasons of `Refused` and no other. -/
theorem ofPostfix_eq_error_iff {fault : Fault} :
    Tree.ofPostfix tokens = .error fault ↔ Tree.Refused tokens fault := by
  constructor
  · intro failed
    rcases run_cases .nil tokens with ⟨stack, ran, keeps⟩ |
      ⟨before, after, token, trees, fault', whole, spells, stuck, stops⟩
    · rw [List.nil_append] at keeps
      rw [ofPostfix_of_kept ran, finish] at failed
      split at failed
      · rename_i none_
        cases failed
        rw [List.reverse_eq_nil_iff] at none_
        subst none_
        exact .nothing keeps.spells.eq_nil
      · cases failed
      · rename_i a b newer reversed
        cases failed
        have parts : stack = newer.reverse ++ [b, a] := by
          rw [List.reverse_eq_iff.mp reversed]
          simp
        rw [parts] at keeps
        obtain ⟨first, second, rest, whole, standsA, standsB, kept⟩ := keeps.oldest
        exact .excess whole standsA.spells standsB.spells kept.spells standsB.hulls
    · rw [Tree.ofPostfix, stops] at failed
      cases failed
      exact .stuck whole spells stuck
  · intro refused
    cases refused with
    | stuck whole spells stuck => rw [Tree.ofPostfix, whole, run_of_stuck spells stuck]
    | nothing none_ =>
        rw [none_]
        rfl
    | @excess first second rest t u others span whole spellsT spellsU spellsRest hulls =>
        have spells := (spellsT.append spellsU).append spellsRest
        rw [← whole] at spells
        obtain ⟨stack, ran, trees, keeps⟩ := exists_run_of_spells spells
        rw [treesOf, List.reverse_eq_iff] at trees
        simp only [List.reverse_append, List.reverse_cons, List.reverse_nil, List.nil_append]
          at trees
        obtain ⟨newer, oldest, rfl, -, two⟩ := List.map_eq_append_iff.mp trees
        obtain ⟨b, ones, rfl, rfl, one⟩ := List.map_eq_cons_iff.mp two
        obtain ⟨a, rfl, rfl⟩ := List.map_eq_singleton_iff.mp one
        obtain ⟨first', second', rest', whole', standsA, standsB, -⟩ := keeps.oldest
        rw [ofPostfix_of_kept ran, finish_of_oldest]
        -- The operands' tokens are the given ones, since they spell the same trees.
        rw [whole, List.append_assoc, List.append_assoc] at whole'
        obtain ⟨-, later⟩ := Spells.head_eq spellsT standsA.spells whole'
        obtain ⟨rfl, -⟩ := Spells.head_eq spellsU standsB.spells later
        rw [standsB.hulls.unique hulls]

/-- The assembly inverts the postorder: it makes a tree of exactly those tokens that
are its postorder, if every call in it is filled and it is not too high; the spans
do not matter. All other tokens it refuses, for the first token that is stuck on the
trees before it, or if none is, because there are no trees or several. -/
theorem assembly_inverts_postorder (tokens : List Token) (t : Tree) (fault : Fault) :
    (Tree.ofPostfix tokens = .ok t ↔
        tokens.map Token.meaning = t.postorder ∧ t.Filled ∧ t.height ≤ Tree.maxHeight) ∧
      (Tree.ofPostfix tokens = .error fault ↔ Tree.Refused tokens fault) :=
  ⟨ofPostfix_eq_ok_iff.trans Tree.spells_singleton_iff, ofPostfix_eq_error_iff⟩

end Formula
