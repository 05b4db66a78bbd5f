/-
# Formula.Proofs.Grammar.Order — what the check of neighbours accepts

The check makes four tests in turn: for a lone token, for the first token, for
neighbours, and for the last token. Together they say three things about the
tokens (`Infix.Ordered`): an expression may start with the first, every token
may follow the one before it, and an expression may end with the last. The test
for a lone token adds nothing, since only an operand may both start and end an
expression.
-/
import Formula.Infix
import Mathlib.Data.List.Chain

namespace Formula

set_option autoImplicit false

@[simp] theorem Token.category_mk (meaning : Meaning) (span : Span) :
    (⟨meaning, span⟩ : Token).category = meaning.category := rfl

@[simp] theorem Meaning.category_eq :
    (∀ value, (constant value).category = .constant) ∧
      (∀ index, (slot index).category = .constant) ∧
      (∀ o, (operator o).category = .operator) ∧ (∀ r, (routine r).category = .routine) ∧
      opening.category = .opening ∧ closing.category = .closing ∧
      separator.category = .separator :=
  ⟨fun _ => rfl, fun _ => rfl, fun _ => rfl, fun _ => rfl, rfl, rfl, rfl⟩

namespace Category

@[simp] theorem starts_eq :
    constant.starts = true ∧ opening.starts = true ∧ routine.starts = true ∧
      closing.starts = false ∧ separator.starts = false ∧ operator.starts = false :=
  ⟨rfl, rfl, rfl, rfl, rfl, rfl⟩

@[simp] theorem finishes_eq :
    constant.finishes = true ∧ closing.finishes = true ∧ opening.finishes = false ∧
      separator.finishes = false ∧ operator.finishes = false ∧ routine.finishes = false :=
  ⟨rfl, rfl, rfl, rfl, rfl, rfl⟩

/-- Whether the second of two neighbours may follow the first. -/
def Admits (current next : Category) : Prop := current.clash? next = none

theorem eq_constant {c : Category} (starts : c.starts = true) (finishes : c.finishes = true) :
    c = .constant := by
  cases c <;> simp_all

/-- Anything may follow what an operand ends with. -/
theorem admits_of_finishes {c : Category} (finishes : c.finishes = true) (next : Category) :
    c.Admits next := by
  cases c <;> simp_all [Admits, clash?]

/-- Only a start of an operand may follow anything else. -/
theorem starts_of_admits {c next : Category} (admits : c.Admits next)
    (unfinished : c.finishes = false) : next.starts = true := by
  cases c <;> cases next <;> simp_all [Admits, clash?]

theorem admits_of_starts {c next : Category} (notRoutine : c ≠ .routine)
    (starts : next.starts = true) : c.Admits next := by
  cases c <;> simp_all [Admits, clash?]

theorem eq_opening_of_admits {next : Category} (admits : Category.routine.Admits next) :
    next = .opening := by
  cases next <;> simp_all [Admits, clash?]

end Category

namespace Infix

/-- Tokens in an order that an expression can have, as far as neighbours tell. -/
structure Ordered (tokens : List Token) : Prop where
  starts : ∃ first, tokens.head? = some first ∧ first.category.starts = true
  chain : tokens.IsChain fun current next => current.category.Admits next.category
  finishes : ∃ last, tokens.getLast? = some last ∧ last.category.finishes = true

theorem firstClash?_eq_none_iff {tokens : List Token} :
    firstClash? tokens = none ↔
      tokens.IsChain fun current next => current.category.Admits next.category := by
  induction tokens with
  | nil => simp [firstClash?]
  | cons first rest ih =>
      cases rest with
      | nil => simp [firstClash?]
      | cons second rest =>
          rw [firstClash?, List.isChain_cons_cons, ← ih, Category.Admits]
          cases first.category.clash? second.category <;> simp

theorem fault?_eq_none_iff {tokens : List Token} : fault? tokens = none ↔ Ordered tokens := by
  cases tokens with
  | nil =>
      simp only [fault?, reduceCtorEq, false_iff]
      rintro ⟨⟨first, isFirst, _⟩, -, -⟩
      simp at isFirst
  | cons first rest =>
      have last := List.getLast?_eq_some_getLast (l := first :: rest) (by simp)
      constructor
      · intro accepted
        simp only [fault?] at accepted
        split at accepted
        · simp at accepted
        split at accepted
        · simp at accepted
        rename_i starts
        cases clash : firstClash? (first :: rest) with
        | some fault => simp [clash] at accepted
        | none =>
            rw [clash] at accepted
            dsimp only at accepted
            split at accepted
            · rename_i finishes
              exact ⟨⟨first, rfl, by simpa using starts⟩, firstClash?_eq_none_iff.mp clash,
                ⟨_, last, finishes⟩⟩
            · simp at accepted
      · rintro ⟨⟨t, isFirst, starts⟩, chain, ⟨u, isLast, finishes⟩⟩
        obtain rfl := Option.some.inj isFirst
        obtain rfl := Option.some.inj (last.symm.trans isLast)
        have notLone : (rest.isEmpty && first.category != .constant) = false := by
          cases rest with
          | nil => simpa using Category.eq_constant starts finishes
          | cons => rfl
        simp [fault?, notLone, starts, firstClash?_eq_none_iff.mpr chain, finishes]

/-- The check accepts exactly the ordered lists, and hands them back as they are. -/
theorem check_eq_ok_iff {tokens checked : List Token} :
    check tokens = .ok checked ↔ checked = tokens ∧ Ordered tokens := by
  rw [← fault?_eq_none_iff, check]
  cases fault? tokens <;> simp [eq_comm]

/-! ## Joining ordered lists -/

theorem Ordered.singleton {t : Token} (constant : t.category = .constant) : Ordered [t] :=
  ⟨⟨t, rfl, by simp [constant]⟩, List.isChain_singleton _,
    ⟨t, rfl, by simp [constant]⟩⟩

/-- What ends like an operand may be followed by an operator or separator and
something that starts like one. -/
theorem Ordered.append {xs ys : List Token} {t : Token} (before : Ordered xs)
    (after : Ordered ys) (notRoutine : t.category ≠ .routine) : Ordered (xs ++ t :: ys) := by
  obtain ⟨first, isFirst, starts⟩ := before.starts
  obtain ⟨last, isLast, finishes⟩ := after.finishes
  obtain ⟨joint, isJoint, ends⟩ := before.finishes
  obtain ⟨head, isHead, opens⟩ := after.starts
  refine ⟨⟨first, List.mem_head?_append_of_mem_head? isFirst, starts⟩, ?_,
    ⟨last, by simp [List.getLast?_append, List.getLast?_cons, isLast], finishes⟩⟩
  · refine List.isChain_append.mpr ⟨before.chain, ?_, ?_⟩
    · rw [List.isChain_cons]
      refine ⟨fun next isNext => ?_, after.chain⟩
      obtain rfl := Option.some.inj (isHead.symm.trans isNext)
      exact Category.admits_of_starts notRoutine opens
    · intro x isX y isY
      obtain rfl := Option.some.inj (isJoint.symm.trans isX)
      exact Category.admits_of_finishes ends _

/-- An ordered list between parentheses is ordered. -/
theorem Ordered.parenthesized {xs : List Token} {opening closing : Token} (inside : Ordered xs)
    (opens : opening.category = .opening) (closes : closing.category = .closing) :
    Ordered (opening :: xs ++ [closing]) := by
  obtain ⟨first, isFirst, starts⟩ := inside.starts
  obtain ⟨last, isLast, finishes⟩ := inside.finishes
  refine ⟨⟨opening, rfl, by simp [opens]⟩, ?_,
    ⟨closing, List.getLast?_concat .., by simp [closes]⟩⟩
  rw [List.cons_append, List.isChain_cons]
  refine ⟨fun next isNext => ?_, ?_⟩
  · obtain rfl := Option.some.inj
      ((List.mem_head?_append_of_mem_head? isFirst).symm.trans isNext)
    exact Category.admits_of_starts (by simp [opens]) starts
  · refine List.isChain_append.mpr ⟨inside.chain, List.isChain_singleton _, ?_⟩
    intro x isX y isY
    obtain rfl := Option.some.inj (isLast.symm.trans isX)
    exact Category.admits_of_finishes finishes _

/-- A routine may stand before an opening parenthesis. -/
theorem Ordered.call {xs : List Token} {name opening : Token} (arguments : Ordered (opening :: xs))
    (routine : name.category = .routine) (opens : opening.category = .opening) :
    Ordered (name :: opening :: xs) := by
  obtain ⟨last, isLast, finishes⟩ := arguments.finishes
  refine ⟨⟨name, rfl, by simp [routine]⟩, ?_,
    ⟨last, by rw [List.getLast?_cons_cons, isLast], finishes⟩⟩
  rw [List.isChain_cons_cons]
  exact ⟨by simp [routine, opens, Category.Admits, Category.clash?], arguments.chain⟩

end Infix

end Formula
