/-
# Formula.Proofs.Grammar.Phrase — the grammar of formulas

    phrase    ::= primary (operator primary)*
    primary   ::= constant | variable | ( phrase ) | routine ( phrase (, phrase)* )

A value of `Phrase` is a derivation by this grammar, with the span of every
token. The number of arguments of a call is part of the type: `Arguments n` are
exactly `n` phrases, and none exist for `n = 0`.

`tokens` is the list of tokens that a derivation derives, and `tree` the tree it
stands for: parentheses leave no node, a call keeps the trees of its arguments
in order, and the operators of one level are nested as `Run.tree` says.
-/
import Formula.Proofs.Grammar.Order
import Formula.Proofs.Grammar.Run
import Formula.Proofs.Tree.Postorder

namespace Formula

set_option autoImplicit false

mutual

/-- What stands between two operators. -/
inductive Primary : Type where
  | constant (value : Float) (span : Span)
  | slot (index : Nat) (span : Span)
  | group (opening : Span) (inner : Phrase) (closing : Span)
  | call (r : Routine) (name opening : Span) (arguments : Arguments r.arity) (closing : Span)

/-- Operands with operators between them. -/
inductive Phrase : Type where
  | last (operand : Primary)
  | chain (operand : Primary) (o : Operator) (span : Span) (rest : Phrase)

/-- A number of phrases with separators between them, at least one. -/
inductive Arguments : Nat → Type where
  | last (argument : Phrase) : Arguments 1
  | more {n : Nat} (argument : Phrase) (separator : Span) (rest : Arguments n) :
    Arguments (n + 1)

end

/-! ## Tokens -/

mutual

def Primary.tokens : Primary → List Token
  | .constant value span => [⟨.constant value, span⟩]
  | .slot index span => [⟨.slot index, span⟩]
  | .group opening inner closing =>
      ⟨.opening, opening⟩ :: inner.tokens ++ [⟨.closing, closing⟩]
  | .call r name opening arguments closing =>
      ⟨.routine r, name⟩ :: ⟨.opening, opening⟩ :: arguments.tokens ++ [⟨.closing, closing⟩]

/-- The tokens a phrase derives. -/
def Phrase.tokens : Phrase → List Token
  | .last operand => operand.tokens
  | .chain operand o span rest => operand.tokens ++ ⟨.operator o, span⟩ :: rest.tokens

def Arguments.tokens {n : Nat} : Arguments n → List Token
  | .last argument => argument.tokens
  | .more argument separator rest => argument.tokens ++ ⟨.separator, separator⟩ :: rest.tokens

end

/-! ## Trees -/

mutual

def Primary.tree : Primary → Tree
  | .constant value _ => .constant value
  | .slot index _ => .slot index
  | .group _ inner _ => inner.run.tree
  | .call r _ _ arguments _ => .call r arguments.trees

/-- The operators of a phrase, outside all parentheses, and the trees of its
operands. -/
def Phrase.run : Phrase → Run
  | .last operand => .single operand.tree
  | .chain operand o _ rest => (Run.single operand.tree).join o rest.run

def Arguments.trees {n : Nat} : Arguments n → List Tree
  | .last argument => [argument.run.tree]
  | .more argument _ rest => argument.run.tree :: rest.trees

end

/-- The tree a phrase stands for. -/
def Phrase.tree (p : Phrase) : Tree := p.run.tree

theorem Primary.tree_last (operand : Primary) : (Phrase.last operand).tree = operand.tree := by
  rw [Phrase.tree, Phrase.run, Run.tree_single]

theorem Arguments.length_trees {n : Nat} : ∀ arguments : Arguments n, arguments.trees.length = n
  | .last _ => by simp [Arguments.trees]
  | .more _ _ rest => by simp [Arguments.trees, rest.length_trees]

theorem Arguments.positive {n : Nat} (arguments : Arguments n) : 0 < n := by
  cases arguments <;> omega

/-! ## The check accepts phrases -/

mutual

theorem Primary.ordered : ∀ operand : Primary, Infix.Ordered operand.tokens
  | .constant _ _ => .singleton rfl
  | .slot _ _ => .singleton rfl
  | .group _ inner _ => inner.ordered.parenthesized rfl rfl
  | .call _ _ _ arguments _ =>
      (arguments.ordered.parenthesized rfl rfl).call rfl rfl

theorem Phrase.ordered : ∀ p : Phrase, Infix.Ordered p.tokens
  | .last operand => operand.ordered
  | .chain operand _ _ rest => operand.ordered.append rest.ordered (by simp)

theorem Arguments.ordered {n : Nat} : ∀ arguments : Arguments n, Infix.Ordered arguments.tokens
  | .last argument => argument.ordered
  | .more argument _ rest => argument.ordered.append rest.ordered (by simp)

end

end Formula
