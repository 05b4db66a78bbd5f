/-
# Formula.Proofs.Conversion.Balance — counting operands

In a formula every operand has a place: at the start, after an operator, or as
an argument. `surplus` counts those that have none: an operand right after
another one, one more in parentheses that are no call, and one in the
parentheses of a call that takes nothing. `Balanced groups last tokens n` says
that the tokens close all open groups and leave `n` operands in surplus.

The books are kept by `owed`: the arguments still due to the open calls, less
the operand just read. A step changes it by the weight of the token and by the
surplus (`weight_step`), so in the end the weights add up to one more than the
surplus (`Balanced.weight`). Tokens that a tree was built from have none
(`balanced_of_tree`).
-/
import Formula.Compiled
import Formula.Proofs.Conversion.Nesting

namespace Formula

set_option autoImplicit false

open Conversion (Aligned Seated)

namespace Infix

/-- Tokens that complete an expression of which `last` was the last token read,
as far as neighbours tell. -/
structure Completes (last : Option Token) (tokens : List Token) : Prop where
  starts : last = none → ∃ first, tokens.head? = some first ∧ first.category.starts = true
  chain : (last.toList ++ tokens).IsChain fun current next => current.category.Admits next.category
  finishes : ∃ final, (last.toList ++ tokens).getLast? = some final ∧
    final.category.finishes = true

theorem Ordered.completes {tokens : List Token} (ordered : Ordered tokens) :
    Completes none tokens :=
  ⟨fun _ => ordered.starts, ordered.chain, ordered.finishes⟩

variable {last : Option Token} {token : Token} {rest : List Token}

theorem Completes.tail (completes : Completes last (token :: rest)) :
    Completes (some token) rest := by
  obtain ⟨final, isLast, finishes⟩ := completes.finishes
  refine ⟨by simp, ?_, final, ?_, finishes⟩
  · exact (List.isChain_append.mp completes.chain).2.1
  · cases last with
    | none => exact isLast
    | some t => simpa [List.getLast?_cons_cons] using isLast

theorem Completes.admits (completes : Completes last (token :: rest)) :
    ∀ t, last = some t → t.category.Admits token.category := by
  rintro t rfl
  exact (List.isChain_cons_cons.mp completes.chain).1

/-- Only an open parenthesis can follow a routine. -/
theorem Completes.called (completes : Completes last (token :: rest)) :
    ∀ t, last = some t → t.category = .routine → token.category = .opening := by
  intro t isLast isRoutine
  have admits := completes.admits t isLast
  rw [isRoutine] at admits
  exact Category.eq_opening_of_admits admits

/-- Only an operand can be followed by what does not start one. -/
theorem Completes.last_finishes (completes : Completes last (token :: rest))
    (later : token.category.starts = false) :
    ∃ t, last = some t ∧ t.category.finishes = true := by
  cases last with
  | none =>
      obtain ⟨first, isFirst, starts⟩ := completes.starts rfl
      obtain rfl := Option.some.inj isFirst
      simp [later] at starts
  | some t =>
      refine ⟨t, rfl, ?_⟩
      cases finishes : t.category.finishes with
      | true => rfl
      | false =>
          have starts := Category.starts_of_admits (completes.admits t rfl) finishes
          simp [later] at starts

end Infix

namespace Nesting

/-! ## Surplus and debt -/

/-- One operand, if one has just been completed. -/
def completed (last : Option Token) : Nat := if last.any (·.category.finishes) then 1 else 0

/-- The operands that a token leaves without a place. -/
def surplus (groups : List Group) (last : Option Token) (token : Token) : Nat :=
  match token.meaning, groups with
  | .separator, none :: _ => 1
  | .closing, some call :: _ => call.arguments - call.routine.arity
  | _, _ => if token.category.starts then completed last else 0

/-- The arguments that open calls still take, apart from the ones begun. -/
def due : List Group → Int
  | [] => 0
  | none :: groups => due groups
  | some call :: groups => call.routine.arity - call.arguments + due groups

/-- The same for a routine of which only the name was read. -/
def dueTo : Option Token → Int
  | some ⟨.routine r, _⟩ => r.arity - 1
  | _ => 0

/-- What is still due, less the operand that was just completed. -/
def owed (groups : List Group) (last : Option Token) : Int :=
  due groups + dueTo last - completed last

theorem dueTo_routine (r : Routine) (span : Span) :
    dueTo (some ⟨.routine r, span⟩) = r.arity - 1 := rfl

theorem dueTo_of_ne {t : Token} (other : t.category ≠ .routine) : dueTo (some t) = 0 := by
  obtain ⟨meaning, span⟩ := t
  cases meaning with
  | routine r => exact absurd rfl other
  | _ => rfl

theorem surplus_of_starts {token : Token} (starts : token.category.starts = true)
    (groups : List Group) (last : Option Token) :
    surplus groups last token = completed last := by
  obtain ⟨meaning, span⟩ := token
  cases meaning <;> simp_all [surplus]

theorem completed_of_finishes {t : Token} (finishes : t.category.finishes = true) :
    completed (some t) = 1 := by
  simp [completed, finishes]

theorem completed_of_not_finishes {t : Token} (unfinished : t.category.finishes = false) :
    completed (some t) = 0 := by
  simp [completed, unfinished]

theorem owed_of_finishes {t : Token} (finishes : t.category.finishes = true)
    (groups : List Group) : owed groups (some t) = due groups - 1 := by
  have other : t.category ≠ .routine := by
    rintro routine
    simp [routine] at finishes
  simp [owed, dueTo_of_ne other, completed_of_finishes finishes]

theorem due_groupAbove (last : Option Token) (groups : List Group) :
    due (Conversion.groupAbove last.toList :: groups) = dueTo last + due groups := by
  cases last with
  | none => simp [Conversion.groupAbove, due, dueTo]
  | some t =>
      obtain ⟨meaning, span⟩ := t
      cases meaning <;> simp [Conversion.groupAbove, due, dueTo]

/-- Before an operand starts, only a routine's name has something due to it
alone, and only an opening parenthesis can follow it. -/
theorem dueTo_of_admits {last : Option Token} {token : Token}
    (admits : ∀ t, last = some t → t.category.Admits token.category)
    (other : token.category ≠ .opening) : dueTo last = 0 := by
  cases last with
  | none => rfl
  | some t =>
      obtain ⟨meaning, span⟩ := t
      cases meaning with
      | routine r => exact absurd (Category.eq_opening_of_admits (admits _ rfl)) other
      | _ => rfl

theorem due_nextArgument (group : Group) (groups : List Group) (place : Span) :
    due (group.map (·.nextArgument place) :: groups) =
      due (group :: groups) - if group.isSome then 1 else 0 := by
  cases group with
  | none => simp [due]
  | some call =>
      simp only [Option.map_some, due, OpenCall.nextArgument, Option.isSome_some, if_true]
      omega

theorem le_arguments {call : OpenCall} (complete : call.fault? = none) :
    call.routine.arity ≤ call.arguments := by
  unfold OpenCall.fault? at complete
  split at complete
  · cases complete
  · omega

/-! ## One token -/

section Step

variable {groups groups' : List Group} {last : Option Token} {token : Token}
  {next : Option Token}

/-- The start of an operand takes a place, or is in surplus right after another
operand. -/
theorem weight_start (starts : token.category.starts = true)
    (admits : ∀ t, last = some t → t.category.Admits token.category)
    (stepped : step groups last token next = .ok groups') :
    token.weight + owed groups' (some token) = owed groups last + completed last := by
  have idle := dueTo_of_admits admits
  obtain ⟨meaning, span⟩ := token
  cases meaning with
  | constant value =>
      cases stepped
      rw [owed_of_finishes rfl, owed, idle (by simp)]
      simp only [Token.weight]
      omega
  | slot index =>
      cases stepped
      rw [owed_of_finishes rfl, owed, idle (by simp)]
      simp only [Token.weight]
      omega
  | routine r =>
      cases stepped
      rw [owed, owed, idle (by simp), dueTo_routine, completed_of_not_finishes rfl]
      simp only [Token.weight]
      omega
  | opening =>
      cases stepped
      rw [owed, owed, due_groupAbove, dueTo_of_ne (by simp), completed_of_not_finishes rfl]
      simp only [Token.weight]
      omega
  | operator o => cases starts
  | separator => cases starts
  | closing => cases starts

/-- A separator makes room for an operand in a call, and in any other group
leaves one in surplus. -/
theorem weight_separator {t : Token} {span : Span} (ends : t.category.finishes = true)
    (stepped : step groups (some t) ⟨.separator, span⟩ next = .ok groups') :
    owed groups' (some ⟨.separator, span⟩) =
      owed groups (some t) + surplus groups (some t) ⟨.separator, span⟩ := by
  cases groups with
  | nil => cases stepped
  | cons group outer =>
      cases stepped
      rw [owed_of_finishes ends, owed, dueTo_of_ne (by simp), due_nextArgument,
        completed_of_not_finishes rfl]
      cases group with
      | none =>
          simp only [surplus, Option.isSome_none, Bool.false_eq_true, if_false]
          omega
      | some call =>
          simp only [surplus, Token.category_mk, Meaning.category_eq, Category.starts_eq,
            Option.isSome_some, Bool.false_eq_true, if_false, if_true]
          omega

/-- A closing parenthesis makes one operand of its group; the arguments past the
arity of a call are in surplus. -/
theorem weight_closing {t : Token} {span : Span} (ends : t.category.finishes = true)
    (stepped : step groups (some t) ⟨.closing, span⟩ next = .ok groups') :
    owed groups' (some ⟨.closing, span⟩) =
      owed groups (some t) + surplus groups (some t) ⟨.closing, span⟩ := by
  rw [owed_of_finishes ends, owed_of_finishes rfl]
  cases groups with
  | nil => cases stepped
  | cons group outer =>
      cases group with
      | none =>
          cases stepped
          simp only [due, surplus, Token.category_mk, Meaning.category_eq, Category.starts_eq,
            Bool.false_eq_true, if_false]
          omega
      | some call =>
          simp only [step, Option.bind_some] at stepped
          split at stepped
          · cases stepped
          · rename_i complete
            cases stepped
            have enough := le_arguments complete
            simp only [due, surplus]
            omega

/-- The weight of a token is what it takes off the debt, and the surplus. -/
theorem weight_step {rest : List Token} (completes : Infix.Completes last (token :: rest))
    (stepped : step groups last token next = .ok groups') :
    token.weight + owed groups' (some token) = owed groups last + surplus groups last token := by
  cases starts : token.category.starts with
  | true =>
      rw [surplus_of_starts starts]
      exact weight_start starts completes.admits stepped
  | false =>
      obtain ⟨t, rfl, ends⟩ := completes.last_finishes starts
      obtain ⟨meaning, span⟩ := token
      cases meaning with
      | operator o =>
          cases stepped
          rw [owed_of_finishes ends, owed, dueTo_of_ne (by simp), completed_of_not_finishes rfl]
          simp only [surplus, Token.weight, Token.category_mk, Meaning.category_eq,
            Category.starts_eq, Bool.false_eq_true, if_false]
          omega
      | separator =>
          rw [← weight_separator ends stepped]
          exact Int.zero_add _
      | closing =>
          rw [← weight_closing ends stepped]
          exact Int.zero_add _
      | _ => cases starts

end Step

/-! ## Balanced tokens -/

/-- The tokens close all open groups, and leave a number of operands in surplus. -/
inductive Balanced : List Group → Option Token → List Token → Nat → Prop where
  | nil {last : Option Token} : Balanced [] last [] 0
  | cons {groups groups' : List Group} {last : Option Token} {token : Token}
    {rest : List Token} {n : Nat} :
    step groups last token rest.head? = .ok groups' → Balanced groups' (some token) rest n →
    Balanced groups last (token :: rest) (surplus groups last token + n)

/-- The weights pay the debt, for one operand that stays and for the surplus. -/
theorem Balanced.weight {groups : List Group} {last : Option Token} {tokens : List Token}
    {n : Nat} (balanced : Balanced groups last tokens n)
    (completes : Infix.Completes last tokens) : weightOf tokens = owed groups last + n + 1 := by
  induction balanced with
  | nil =>
      rename_i last
      cases last with
      | none =>
          obtain ⟨first, isFirst, -⟩ := completes.starts rfl
          cases isFirst
      | some t =>
          obtain ⟨final, isLast, finishes⟩ := completes.finishes
          have same : t = final := Option.some.inj isLast
          subst same
          simp [owed_of_finishes finishes, due, weightOf]
  | cons stepped _ ih =>
      have here := weight_step completes stepped
      have later := ih completes.tail
      rw [weightOf, later]
      push_cast
      omega

/-- A conversion that reads all tokens and closes all parentheses finds them
balanced. -/
theorem balanced_of_run {c d : Conversion} {last : Option Token} {tokens : List Token}
    (aligned : Aligned c.groups c.waiting) (seated : Seated last c.waiting)
    (completes : Infix.Completes last tokens) (ran : c.run tokens = .ok d)
    (closed : ∀ t ∈ d.waiting, t.category ≠ .opening) :
    ∃ n, Balanced c.groups last tokens n := by
  induction tokens generalizing c last with
  | nil =>
      cases ran
      rw [aligned.eq_nil closed]
      exact ⟨0, .nil⟩
  | cons token rest ih =>
      rw [Conversion.run] at ran
      split at ran
      · cases ran
      · rename_i next stepped
        obtain ⟨n, balanced⟩ := ih (Conversion.aligned_step aligned stepped)
          (Conversion.seated_step aligned seated completes.called stepped) completes.tail ran
        have alone := groups_step aligned seated token rest.head?
        rw [stepped] at alone
        exact ⟨_, .cons alone.symm balanced⟩

/-- Tokens that a tree was built from are balanced, without surplus. -/
theorem balanced_of_tree {tokens : List Token} {t : Tree}
    (built : treeOfTokens tokens = .ok t) :
    Infix.Ordered tokens ∧ Balanced [] none tokens 0 := by
  obtain ⟨checked, isChecked, out, converted, assembled⟩ := treeOfTokens_eq_ok_iff.mp built
  obtain ⟨rfl, ordered⟩ := Infix.check_eq_ok_iff.mp isChecked
  obtain ⟨c, ran, closed, -⟩ := Conversion.toPostfix_eq_ok_iff.mp converted
  obtain ⟨n, balanced⟩ : ∃ n, Balanced [] none checked n :=
    balanced_of_run .nil ⟨.nil, rfl⟩ ordered.completes ran closed
  have one := Assembly.weight_of_ofPostfix assembled
  rw [weight_toPostfix converted, balanced.weight ordered.completes] at one
  have none_ : n = 0 := by
    simp [owed, due, dueTo, completed] at one
    omega
  subst none_
  exact ⟨ordered, balanced⟩

end Nesting

end Formula
