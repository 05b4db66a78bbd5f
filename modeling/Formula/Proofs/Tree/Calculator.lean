/-
# Formula.Proofs.Tree.Calculator — postfix tokens read on a stack of values

A calculator for postfix tokens needs no tree. It keeps a stack of values: an
operand goes on top, an operator or a routine takes the newest values off and puts
its result there. Reading the postorder of a tree leaves the value of the tree, and
makes the calls that evaluating the tree makes (`Calculator.computes_postorder`):
one for each operator and routine that is read (`Tree.callees_calls`).

The tokens that are assembled into a tree are its postorder, so building the tree
and evaluating it is reading its tokens (`evaluation_follows_postfix`).
-/
import Formula.Proofs.Tree.Calls
import Formula.Proofs.Tree.Inversion

namespace Formula

set_option autoImplicit false

/-- A stack of values, newest first, and the calls made so far, oldest first. -/
structure Calculator where
  values : List Float
  calls : List Call

namespace Calculator

/-- Read a token; nothing if a slot does not exist or values are missing, and for
grouping. -/
def read (slots : List Float) (c : Calculator) (token : Token) : Option Calculator :=
  match token.meaning, c.values with
  | .constant value, values => some ⟨value :: values, c.calls⟩
  | .slot index, values => (slots[index]?).map fun value => ⟨value :: values, c.calls⟩
  | .operator o, b :: a :: below =>
    some ⟨o.apply a b :: below, c.calls ++ [⟨.operator o, [a, b]⟩]⟩
  | .routine r, values =>
    if values.length < r.arity then none
    else
      let arguments := (values.take r.arity).reverse
      some ⟨r.apply arguments :: values.drop r.arity, c.calls ++ [⟨.routine r, arguments⟩]⟩
  | _, _ => none

/-- Read tokens from left to right. -/
def readAll (slots : List Float) (c : Calculator) : List Token → Option Calculator
  | [] => some c
  | token :: rest => (c.read slots token).bind fun c => c.readAll slots rest

variable {slots : List Float}

theorem readAll_append (c : Calculator) (xs ys : List Token) :
    c.readAll slots (xs ++ ys) = (c.readAll slots xs).bind fun c => c.readAll slots ys := by
  induction xs generalizing c with
  | nil => rfl
  | cons token xs ih =>
      simp only [List.cons_append, readAll]
      cases c.read slots token with
      | none => rfl
      | some c => exact ih c

theorem readAll_singleton (c : Calculator) (token : Token) :
    c.readAll slots [token] = c.read slots token := by
  rw [readAll]
  cases c.read slots token <;> rfl

/-- With the values of some trees on top, a token makes the value of the node that it
makes of them, and the call of the node if it is no leaf. -/
theorem read_of_makes {token : Token} {taken : List Tree} {node : Tree}
    (makes : Tree.Makes token.meaning taken node) (within : ∀ i ∈ node.slots, i < slots.length)
    (below : List Float) (calls : List Call) :
    read slots ⟨(Tree.denoteAll slots taken).reverse ++ below,
        calls ++ (Tree.applicationsOfAll taken).map (Application.call slots)⟩ token =
      some ⟨node.denote slots :: below, calls ++ node.calls slots⟩ := by
  obtain ⟨meaning, span⟩ := token
  cases makes with
  | constant value => rfl
  | slot index =>
      have inside : index < slots.length := within index (by simp [Tree.slots])
      simp only [read, List.getElem?_eq_getElem inside, Option.map_some, Tree.denote, slotValue,
        Option.getD_some]
      rfl
  | apply o lhs rhs =>
      simp [read, Tree.denoteAll, Tree.denote, Tree.applicationsOfAll, Tree.calls,
        Tree.applications, Application.call]
  | call r count =>
      have length : (Tree.denoteAll slots taken).reverse.length = r.arity := by
        rw [List.length_reverse, Tree.length_denoteAll, count]
      have enough : ¬ ((Tree.denoteAll slots taken).reverse ++ below).length < r.arity := by
        rw [List.length_append, length]
        omega
      simp only [read, if_neg enough]
      rw [← length, List.take_left, List.drop_left, List.reverse_reverse]
      simp [Tree.denote, Tree.calls, Tree.applications, Application.call]

/-! ## Reading a postorder -/

/-- Some tokens put the value of a tree on top of any values, and make the calls of
the tree. -/
def Computes (slots : List Float) (tokens : List Token) (t : Tree) : Prop :=
  ∀ (values : List Float) (calls : List Call), readAll slots ⟨values, calls⟩ tokens =
    some ⟨t.denote slots :: values, calls ++ t.calls slots⟩

/-- The same for some trees; the value of the last one ends on top. -/
def ComputesAll (slots : List Float) (tokens : List Token) (ts : List Tree) : Prop :=
  ∀ (values : List Float) (calls : List Call), readAll slots ⟨values, calls⟩ tokens =
    some ⟨(Tree.denoteAll slots ts).reverse ++ values,
      calls ++ (Tree.applicationsOfAll ts).map (Application.call slots)⟩

theorem ComputesAll.nil : ComputesAll slots [] [] := by
  intro values calls
  rw [readAll, Tree.applicationsOfAll, List.map_nil, List.append_nil]
  rfl

theorem Computes.cons {xs ys : List Token} {t : Tree} {ts : List Tree}
    (head : Computes slots xs t) (tail : ComputesAll slots ys ts) :
    ComputesAll slots (xs ++ ys) (t :: ts) := by
  intro values calls
  rw [readAll_append, head values calls]
  simp only [Option.bind_some, tail _ _, Tree.denoteAll, Tree.applicationsOfAll, Tree.calls,
    List.reverse_cons, List.map_append, List.append_assoc, List.singleton_append]

/-- A token that makes a node of some trees computes it after them. -/
theorem ComputesAll.node {xs : List Token} {token : Token} {taken : List Tree} {node : Tree}
    (operands : ComputesAll slots xs taken) (makes : Tree.Makes token.meaning taken node)
    (within : ∀ i ∈ node.slots, i < slots.length) : Computes slots (xs ++ [token]) node := by
  intro values calls
  rw [readAll_append, operands values calls, Option.bind_some, readAll_singleton]
  exact read_of_makes makes within values calls

/-- Tokens in the postorder of a tree compute the tree. -/
theorem computes_postorder {t : Tree} (filled : t.Filled)
    (within : ∀ i ∈ t.slots, i < slots.length) (tokens : List Token)
    (order : tokens.map Token.meaning = t.postorder) : Computes slots tokens t := by
  refine @Tree.postorder_induct
    (fun tokens t => (∀ i ∈ t.slots, i < slots.length) → Computes slots tokens t)
    (fun tokens ts => (∀ i ∈ Tree.slotsOfAll ts, i < slots.length) → ComputesAll slots tokens ts)
    (fun _ => .nil) ?_ ?_ t filled tokens order within
  · intro xs ys t ts head tail within
    exact (head fun i member => within i (List.mem_append_left _ member)).cons
      (tail fun i member => within i (List.mem_append_right _ member))
  · intro xs token taken node operands makes within
    exact (operands fun i member => within i (makes.slots i member)).node makes within

end Calculator

/-! ## The calls in the order of the tokens -/

/-- The operator or routine that a meaning refers to. -/
def Meaning.callee? : Meaning → Option Callee
  | .operator o => some (.operator o)
  | .routine r => some (.routine r)
  | _ => none

namespace Tree

mutual

/-- The operators and routines of a tree come in the order of its postorder. -/
theorem callees_applications : ∀ t : Tree,
    t.applications.map Application.callee = t.postorder.filterMap Meaning.callee?
  | .constant _ => rfl
  | .slot _ => rfl
  | .apply o lhs rhs => by
      have left := callees_applications lhs
      have right := callees_applications rhs
      simp only [applications, postorder, List.map_append, List.filterMap_append, left, right]
      rfl
  | .call r arguments => by
      have all := callees_applicationsOfAll arguments
      simp only [applications, postorder, List.map_append, List.filterMap_append, all]
      rfl

theorem callees_applicationsOfAll : ∀ ts : List Tree,
    (applicationsOfAll ts).map Application.callee =
      (postorderOfAll ts).filterMap Meaning.callee?
  | [] => rfl
  | t :: ts => by
      have head := callees_applications t
      have tail := callees_applicationsOfAll ts
      simp only [applicationsOfAll, postorderOfAll, List.map_append, List.filterMap_append, head,
        tail]

end

/-- So do its calls. -/
theorem callees_calls (slots : List Float) (t : Tree) :
    (t.calls slots).map Call.callee = t.postorder.filterMap Meaning.callee? := by
  rw [← callees_applications, calls, List.map_map]
  rfl

end Tree

/-- Evaluating the tree that tokens are assembled into gives what a calculator gives
that reads the tokens from left to right: the same value, and the same calls in the
same order, one for each operator and each routine among the tokens. What was put
aside before stays so. -/
theorem evaluation_follows_postfix {tokens : List Token} {t : Tree} {slots : List Float}
    (built : Tree.ofPostfix tokens = .ok t) (within : ∀ i ∈ t.slots, i < slots.length)
    (w : Workspace) :
    ∃ (value : Float) (calls : List Call) (after : Workspace),
      Calculator.readAll slots ⟨[], []⟩ tokens = some ⟨[value], calls⟩ ∧
      t.evaluate? slots w = some (value, after) ∧ t.evaluate slots w = (value, after) ∧
      after.staged = w.staged ∧ after.calls.toList = w.calls.toList ++ calls ∧
      calls.map Call.callee = tokens.filterMap fun token => token.meaning.callee? := by
  obtain ⟨order, filled, -⟩ := Tree.spells_singleton_iff.mp (ofPostfix_eq_ok_iff.mp built)
  obtain ⟨after, unstopped, evaluated, staged, logged⟩ := filled.logs within w
  have computes := Calculator.computes_postorder filled within tokens order
  refine ⟨t.denote slots, t.calls slots, after, computes [] [], unstopped, evaluated, staged,
    logged, ?_⟩
  rw [Tree.callees_calls, ← order, List.filterMap_map]
  rfl

/-- `1 - first(x, 2)` in postfix order: the routine is called before the operator,
and a value put aside earlier is not touched. -/
theorem evaluation_follows_postfix_first :
    let minus : Operator := ⟨"-", 2, .left, fun a b => a - b, false⟩
    let first : Routine := ⟨"first", 2, fun values => values.headD 0.0, false⟩
    let tokens : List Token := [⟨.constant 1.0, ⟨0, 1⟩⟩, ⟨.slot 0, ⟨10, 11⟩⟩,
      ⟨.constant 2.0, ⟨13, 14⟩⟩, ⟨.routine first, ⟨4, 9⟩⟩, ⟨.operator minus, ⟨2, 3⟩⟩]
    let t : Tree := .apply minus (.constant 1.0) (.call first [.slot 0, .constant 2.0])
    let calls : List Call := [⟨.routine first, [4.0, 2.0]⟩, ⟨.operator minus, [1.0, 4.0]⟩]
    Tree.ofPostfix tokens = .ok t ∧ (∀ i ∈ t.slots, i < [4.0].length) ∧
      ∃ after, t.evaluate? [4.0] (.holding #[7.0]) = some (1.0 - 4.0, after) ∧
        t.evaluate [4.0] (.holding #[7.0]) = (1.0 - 4.0, after) ∧
        after.staged = #[7.0] ∧ after.calls.toList = calls := by
  intro minus first tokens t calls
  have built : Tree.ofPostfix tokens = .ok t := rfl
  have within : ∀ i ∈ t.slots, i < [4.0].length := by
    simp [t, Tree.slots, Tree.slotsOfAll]
  obtain ⟨value, made, after, reads, unstopped, evaluated, staged, logged, -⟩ :=
    evaluation_follows_postfix built within (.holding #[7.0])
  have result : some ⟨[1.0 - 4.0], calls⟩ = some (Calculator.mk [value] made) := reads
  injection result with result
  injection result with values same
  obtain rfl := List.singleton_inj.mp values
  subst same
  exact ⟨built, within, after, unstopped, evaluated, staged, logged⟩

end Formula
