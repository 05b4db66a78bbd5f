/-
# Formula.Compiled — formulas ready to be evaluated

Compiling checks the declared variables, reads the source and builds the tree.
A compiled formula keeps its source, its variables, the tree, one slot for each
variable, and a buffer for evaluation that is empty between evaluations. Room on
the buffer is reserved beforehand, and it grows if an evaluation needs more.
Evaluating never fails by itself; only values that do not fit the slots do.
-/
import Formula.Infix
import Formula.Lexer
import Formula.Postfix
import Formula.Tree.Assembly
import Formula.Tree.Evaluation
import Formula.Tree.Folding
import Formula.Variables

namespace Formula

set_option autoImplicit false

/-- The tree of some tokens: their order checked, in postfix order, put together. -/
def treeOfTokens (tokens : List Token) : Except Fault Tree := do
  let infixTokens ← Infix.check tokens
  let postfixTokens ← toPostfix infixTokens
  Tree.ofPostfix postfixTokens

/-- The tree of a source. -/
def treeOf (scope : Scope) (source : List Char) : Except Fault Tree := do
  let tokens ← tokenize scope source
  treeOfTokens tokens

/-- A tree is built when all three stages succeed. -/
theorem treeOfTokens_eq_ok_iff {tokens : List Token} {t : Tree} :
    treeOfTokens tokens = .ok t ↔ ∃ checked, Infix.check tokens = .ok checked ∧
      ∃ out, toPostfix checked = .ok out ∧ Tree.ofPostfix out = .ok t := by
  simp only [treeOfTokens, bind, Except.bind]
  cases Infix.check tokens with
  | error fault => simp
  | ok checked =>
      cases converted : toPostfix checked <;> simp [converted]

theorem treeOf_eq_ok_iff {scope : Scope} {source : List Char} {t : Tree} :
    treeOf scope source = .ok t ↔
      ∃ tokens, tokenize scope source = .ok tokens ∧ treeOfTokens tokens = .ok t := by
  simp only [treeOf, bind, Except.bind]
  cases tokenize scope source <;> simp

/-- A formula that can be evaluated. -/
structure Compiled where
  source : String
  names : List String
  tree : Tree
  slots : List Float
  staged : Array Float
  /-- How many values the buffer has room for. -/
  reserved : Nat

/-- The outcome of an evaluation: the value, the calls made for it in order,
and the formula afterwards. -/
structure Evaluation where
  value : Float
  calls : List Call
  formula : Compiled

namespace Compiled

/-- Slots before any value is given: zeros. -/
def zeros (count : Nat) : List Float := List.replicate count 0.0

/-- Compile a source with declared variables against a registry. -/
def compile (source : String) (declaration : Declaration) (registry : Registry) :
    Except Fault Compiled := do
  let names ← Variables.validate declaration.toNames
  if source.toList = [] then throw .emptyExpression
  let tree ← treeOf ⟨names, registry⟩ source.toList
  return {
    source, names, tree
    slots := zeros names.length
    staged := Array.emptyWithCapacity tree.stagingDepth
    reserved := tree.stagingDepth }

theorem length_zeros (count : Nat) : (zeros count).length = count := List.length_replicate ..

/-- A compiled formula has the declared variables, zeros in its slots, the tree of
its source, and room for the values that the tree puts aside. -/
theorem compile_eq_ok {source : String} {declaration : Declaration} {registry : Registry}
    {c : Compiled} (compiled : compile source declaration registry = .ok c) :
    c.source = source ∧ Variables.validate declaration.toNames = .ok c.names ∧
      treeOf ⟨c.names, registry⟩ source.toList = .ok c.tree ∧
      c.slots = zeros c.names.length ∧ c.staged = #[] ∧ c.reserved = c.tree.stagingDepth := by
  simp only [compile, bind, Except.bind, pure, Except.pure] at compiled
  split at compiled
  · cases compiled
  rename_i names validated
  split at compiled
  · cases compiled
  split at compiled
  · cases compiled
  · rename_i tree built
    cases compiled
    exact ⟨rfl, validated, built, rfl, rfl, rfl⟩

/-- The formula with its constant subtrees computed, and the calls this made. -/
def optimized (c : Compiled) : Compiled × List Call :=
  ({ c with tree := c.tree.fold }, c.tree.foldCalls)

/-- A copy with slots of its own, all zero, and as much room. -/
def copy (c : Compiled) : Compiled :=
  { c with
    slots := zeros c.slots.length
    staged := Array.emptyWithCapacity c.reserved }

/-- Write one slot, if it exists. -/
def setSlot? (c : Compiled) (index : Nat) (value : Float) : Option Compiled :=
  if index < c.slots.length then some { c with slots := c.slots.set index value } else none

/-- Evaluate with the slots as they are. -/
def evaluate (c : Compiled) : Evaluation :=
  let (value, after) := c.tree.evaluate c.slots (.holding c.staged)
  ⟨value, after.calls.toList,
    { c with staged := after.staged, reserved := max c.reserved after.peak }⟩

/-- Write the last slot, and evaluate. -/
def evaluateSingle (c : Compiled) (value : Float) : Except Fault Evaluation :=
  if c.slots = [] then .error (.valueCount 0 1)
  else .ok { c with slots := c.slots.set (c.slots.length - 1) value }.evaluate

/-- Write all slots, and evaluate. -/
def evaluateWith (c : Compiled) (values : List Float) : Except Fault Evaluation :=
  if values.length ≠ c.slots.length then .error (.valueCount c.slots.length values.length)
  else .ok { c with slots := values }.evaluate

/-- Writing a slot changes nothing but the slots, and not their number. -/
theorem setSlot?_eq_some {c d : Compiled} {index : Nat} {value : Float}
    (written : c.setSlot? index value = some d) :
    ∃ slots, slots.length = c.slots.length ∧ d = { c with slots } := by
  unfold setSlot? at written
  split at written
  · cases written
    exact ⟨_, List.length_set .., rfl⟩
  · cases written

theorem evaluateSingle_eq_ok {c : Compiled} {value : Float} {result : Evaluation}
    (evaluated : c.evaluateSingle value = .ok result) :
    ∃ slots, slots.length = c.slots.length ∧ result = { c with slots }.evaluate := by
  unfold evaluateSingle at evaluated
  split at evaluated
  · cases evaluated
  · cases evaluated
    exact ⟨_, List.length_set .., rfl⟩

theorem evaluateWith_eq_ok {c : Compiled} {values : List Float} {result : Evaluation}
    (evaluated : c.evaluateWith values = .ok result) :
    values.length = c.slots.length ∧ result = { c with slots := values }.evaluate := by
  unfold evaluateWith at evaluated
  split at evaluated
  · cases evaluated
  · rename_i count
    cases evaluated
    exact ⟨Decidable.of_not_not count, rfl⟩

/-- Two formulas count as equal when their sources are. -/
def sameSource (c d : Compiled) : Bool := c.source == d.source

end Compiled

end Formula
