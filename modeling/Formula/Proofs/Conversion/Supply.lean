/-
# Formula.Proofs.Conversion.Supply — no operator waits in vain

Of what a conversion has emitted, the operators and calls that wait will take
some operands: an operator the one to its left, a call its arguments up to the
last separator. `reserve` counts these. As long as the tokens are in order there
are that many operands, and one more where an operand has just ended
(`Supplied`). Every step keeps this up (`supplied_step`): an operator or a call is
emitted only where an operand has ended, and that operand is the last one it
takes.

So the postfix tokens of an ordered formula grow into trees, whatever operands
stand side by side in it (`exists_forest`).
-/
import Formula.Proofs.Conversion.Balance
import Formula.Proofs.Tree.Forest

namespace Formula

set_option autoImplicit false

namespace Conversion

open Nesting (completed completed_of_finishes completed_of_not_finishes le_arguments)

/-! ## What waits -/

/-- How many operands will be taken by what waits, apart from those still to come. -/
def reserve : List Group → List Token → Nat
  | _, [] => 0
  | groups, token :: waiting =>
    match token.category, groups with
    | .operator, _ => reserve groups waiting + 1
    | .opening, some call :: outer => reserve outer waiting + (call.arguments - 1)
    | .opening, _ :: outer => reserve outer waiting
    | _, _ => reserve groups waiting

/-- Only operators, routines and open parentheses wait. -/
def Waits (token : Token) : Prop :=
  token.category = .operator ∨ token.category = .routine ∨ token.category = .opening

theorem reserve_cons_operator {token : Token} (operator : token.category = .operator)
    (groups : List Group) (waiting : List Token) :
    reserve groups (token :: waiting) = reserve groups waiting + 1 := by
  simp [reserve, operator]

theorem reserve_cons_routine {token : Token} (routine : token.category = .routine)
    (groups : List Group) (waiting : List Token) :
    reserve groups (token :: waiting) = reserve groups waiting := by
  simp [reserve, routine]

theorem reserve_cons_plain {token : Token} (opening : token.category = .opening)
    (groups : List Group) (waiting : List Token) :
    reserve (none :: groups) (token :: waiting) = reserve groups waiting := by
  simp [reserve, opening]

theorem reserve_cons_call {token : Token} (opening : token.category = .opening) (call : OpenCall)
    (groups : List Group) (waiting : List Token) :
    reserve (some call :: groups) (token :: waiting) =
      reserve groups waiting + (call.arguments - 1) := by
  simp [reserve, opening]

/-- Each operator on top reserves one operand. -/
theorem reserve_append {above : List Token} (operators : ∀ t ∈ above, t.category = .operator)
    (groups : List Group) (rest : List Token) :
    reserve groups (above ++ rest) = reserve groups rest + above.length := by
  induction above with
  | nil => rfl
  | cons t above ih =>
      have head := operators t (List.mem_cons_self ..)
      have tail := ih fun u member => operators u (List.mem_cons_of_mem _ member)
      rw [List.cons_append, reserve_cons_operator head, tail, List.length_cons]
      omega

/-- Where an operand has just ended, nothing but operators waits above the innermost
parenthesis: a routine would wait below one. -/
theorem operators_of_above {above rest : List Token} (waits : ∀ t ∈ above, Waits t)
    (chain : (above ++ rest).IsChain Seats) (closed : ∀ t ∈ above, t.category ≠ .opening)
    (top : groupAbove (above ++ rest) = none) : ∀ t ∈ above, t.category = .operator := by
  induction above with
  | nil => simp
  | cons t above ih =>
      have head : t.category = .operator := by
        rcases waits t (List.mem_cons_self ..) with operator | routine | opening
        · exact operator
        · exact absurd routine (groupAbove_eq_none_iff.mp top t rfl)
        · exact absurd opening (closed t (List.mem_cons_self ..))
      rw [List.cons_append, List.isChain_cons] at chain
      have next : groupAbove (above ++ rest) = none := by
        refine groupAbove_eq_none_iff.mpr fun u isHead isRoutine => ?_
        exact closed t (List.mem_cons_self ..) (chain.1 u isHead isRoutine)
      have tail := ih (fun u member => waits u (List.mem_cons_of_mem _ member)) chain.2
        (fun u member => closed u (List.mem_cons_of_mem _ member)) next
      intro u member
      rcases List.mem_cons.mp member with rfl | later
      · exact head
      · exact tail u later

/-- Operators take one operand each, if there is one more than that. -/
theorem growAll_operators {operators : List Token} (each : ∀ t ∈ operators, t.category = .operator)
    {stack : List Tree} (enough : operators.length < stack.length) :
    ∃ trees, Forest.growAll stack operators = some trees ∧
      trees.length + operators.length = stack.length := by
  induction operators generalizing stack with
  | nil => exact ⟨stack, rfl, rfl⟩
  | cons t operators ih =>
      have isOperator := each t (List.mem_cons_self ..)
      obtain ⟨meaning, span⟩ := t
      cases meaning with
      | operator o =>
          match stack, enough with
          | rhs :: lhs :: below, enough =>
              simp only [List.length_cons] at enough
              have fewer : operators.length < (Tree.apply o lhs rhs :: below).length := by
                simp only [List.length_cons]
                omega
              obtain ⟨trees, grown, length⟩ :=
                ih (fun u member => each u (List.mem_cons_of_mem _ member)) fewer
              refine ⟨trees, grown, ?_⟩
              simp only [List.length_cons] at length ⊢
              omega
          | [_], enough => simp at enough
          | [], enough => simp at enough
      | _ => cases isOperator

/-- What is emitted last grows on what was emitted before. -/
theorem growAll_emitted {token : Token} {emitted : List Token} {trees next : List Tree}
    (before : Forest.growAll [] emitted.reverse = some trees)
    (grown : Forest.grow trees token = some next) :
    Forest.growAll [] (token :: emitted).reverse = some next := by
  rw [List.reverse_cons, Forest.growAll_append, before]
  simp only [Option.bind_some, Forest.growAll, grown]

/-! ## The invariant -/

/-- What is emitted grows into at least as many trees as are reserved, and one more
where an operand has just ended. -/
structure Supplied (c : Conversion) (last : Option Token) : Prop where
  aligned : Aligned c.groups c.waiting
  seated : Seated last c.waiting
  waits : ∀ t ∈ c.waiting, Waits t
  operands : ∃ trees, Forest.growAll [] c.emitted.reverse = some trees ∧
    reserve c.groups c.waiting + completed last ≤ trees.length

theorem supplied_start : Supplied start none :=
  ⟨.nil, ⟨List.isChain_nil, rfl⟩, by simp [start], [], rfl, by simp [start, reserve, completed]⟩

/-- After an operand, the operators above the innermost parenthesis can be emitted,
and there is still one operand more than is reserved. -/
theorem Supplied.emit {c : Conversion} {last : Token} (supplied : Supplied c (some last))
    (finishes : last.category.finishes = true) {above rest : List Token}
    (split : above ++ rest = c.waiting) (closed : ∀ t ∈ above, t.category ≠ .opening) :
    (∀ t ∈ rest, Waits t) ∧ ∃ trees,
      Forest.growAll [] (above.reverse ++ c.emitted).reverse = some trees ∧
        reserve c.groups rest + 1 ≤ trees.length := by
  obtain ⟨aligned, seated, waits, trees, grown, count⟩ := supplied
  have notRoutine : groupAbove [last] = none := by
    refine groupAbove_eq_none_iff.mpr fun top isTop routine => ?_
    obtain rfl := Option.some.inj isTop
    simp [routine] at finishes
  have top : groupAbove (above ++ rest) = none := by
    rw [split, seated.top]
    exact notRoutine
  rw [← split] at waits
  have operators := operators_of_above
    (fun t member => waits t (List.mem_append_left _ member)) (split ▸ seated.chain) closed top
  rw [← split, reserve_append operators, completed_of_finishes finishes] at count
  have enough : above.length < trees.length := by omega
  obtain ⟨trees', grown', length⟩ := growAll_operators operators enough
  refine ⟨fun t member => waits t (List.mem_append_right _ member), trees', ?_, by omega⟩
  rw [List.reverse_append, List.reverse_reverse, Forest.growAll_append, grown]
  exact grown'

/-- A leaf that is emitted is one operand more. -/
theorem Supplied.leaf {c : Conversion} {last : Option Token} (supplied : Supplied c last)
    {token : Token} {t : Tree} (grows : ∀ stack, Forest.grow stack token = some (t :: stack)) :
    ∃ trees, Forest.growAll [] (token :: c.emitted).reverse = some trees ∧
      reserve c.groups c.waiting + 1 ≤ trees.length := by
  obtain ⟨-, -, -, trees, grown, count⟩ := supplied
  refine ⟨t :: trees, growAll_emitted grown (grows trees), ?_⟩
  rw [List.length_cons]
  omega

/-- A complete call takes its arguments. -/
theorem grow_routine {r : Routine} (span : Span) {stack : List Tree}
    (enough : r.arity ≤ stack.length) :
    ∃ trees, Forest.grow stack ⟨.routine r, span⟩ = some trees ∧
      trees.length + r.arity = stack.length + 1 := by
  refine ⟨_, if_neg (Nat.not_lt.mpr enough), ?_⟩
  simp only [List.length_cons, List.length_drop]
  omega

section Step

variable {c d : Conversion} {last : Option Token} {token : Token} {next : Option Token}

/-- The operands after a token that may follow the one before it. -/
theorem operands_step (supplied : Supplied c last)
    (ends : token.category.starts = false → ∃ t, last = some t ∧ t.category.finishes = true)
    (stepped : c.step token next = .ok d) :
    (∀ t ∈ d.waiting, Waits t) ∧ ∃ trees,
      Forest.growAll [] d.emitted.reverse = some trees ∧
        reserve d.groups d.waiting + completed (some token) ≤ trees.length := by
  obtain ⟨aligned, seated, waits, trees, grown, count⟩ := id supplied
  obtain ⟨meaning, span⟩ := token
  cases meaning with
  | constant value =>
      cases stepped
      exact ⟨waits, supplied.leaf fun _ => rfl⟩
  | slot index =>
      cases stepped
      exact ⟨waits, supplied.leaf fun _ => rfl⟩
  | routine r =>
      cases stepped
      refine ⟨List.forall_mem_cons.mpr ⟨.inr (.inl rfl), waits⟩, trees, grown, ?_⟩
      rw [reserve_cons_routine rfl, completed_of_not_finishes rfl]
      dsimp only
      omega
  | opening =>
      cases stepped
      refine ⟨List.forall_mem_cons.mpr ⟨.inr (.inr rfl), waits⟩, trees, grown, ?_⟩
      rw [completed_of_not_finishes rfl]
      unfold groupAbove
      split
      · rw [reserve_cons_call rfl]
        dsimp only
        omega
      · rw [reserve_cons_plain rfl]
        omega
  | operator o =>
      obtain ⟨t, rfl, finishes⟩ := ends rfl
      obtain ⟨waits', trees', grown', count'⟩ :=
        supplied.emit finishes (aheadOf_eq o c.waiting) (aheadOf_closed o c.waiting)
      cases stepped
      refine ⟨List.forall_mem_cons.mpr ⟨.inl rfl, waits'⟩, trees', grown', ?_⟩
      rw [reserve_cons_operator rfl, completed_of_not_finishes rfl]
      exact count'
  | separator =>
      obtain ⟨t, rfl, finishes⟩ := ends rfl
      obtain ⟨above, below, opening, group, outer, whole, closed, open_, opens, -, -, rfl⟩ :=
        separate_cases aligned stepped
      obtain ⟨waits', trees', grown', count'⟩ := supplied.emit finishes whole closed
      refine ⟨waits', trees', grown', ?_⟩
      rw [open_] at count'
      rw [completed_of_not_finishes rfl]
      cases group with
      | none =>
          rw [reserve_cons_plain opens] at count'
          simp only [Option.map_none, reserve_cons_plain opens]
          omega
      | some call =>
          rw [reserve_cons_call opens] at count'
          simp only [Option.map_some, reserve_cons_call opens, OpenCall.nextArgument]
          omega
  | closing =>
      obtain ⟨t, rfl, finishes⟩ := ends rfl
      rw [completed_of_finishes rfl]
      obtain ⟨above, below, opening, outer, opens, closed, -,
        ⟨whole, open_, -, rfl⟩ | ⟨call, whole, open_, complete, rfl⟩⟩ :=
          close_cases aligned stepped
      · obtain ⟨waits', trees', grown', count'⟩ := supplied.emit finishes whole closed
        rw [open_, reserve_cons_plain opens] at count'
        exact ⟨fun u member => waits' u (List.mem_cons_of_mem _ member), trees', grown', count'⟩
      · obtain ⟨waits', trees', grown', count'⟩ := supplied.emit finishes whole closed
        rw [open_, reserve_cons_call opens, reserve_cons_routine rfl] at count'
        have begun := le_arguments complete
        have enough : call.routine.arity ≤ trees'.length := by omega
        obtain ⟨trees'', called, length⟩ := grow_routine call.span enough
        refine ⟨fun u member => waits' u (List.mem_cons_of_mem _ (List.mem_cons_of_mem _ member)),
          trees'', growAll_emitted grown' called, ?_⟩
        dsimp only
        omega

/-- Every step keeps the waiting operators and calls supplied. -/
theorem supplied_step {rest : List Token} (supplied : Supplied c last)
    (completes : Infix.Completes last (token :: rest)) (stepped : c.step token next = .ok d) :
    Supplied d (some token) := by
  obtain ⟨waits, operands⟩ := operands_step supplied completes.last_finishes stepped
  exact ⟨aligned_step supplied.aligned stepped,
    seated_step supplied.aligned supplied.seated completes.called stepped, waits, operands⟩

end Step

/-- A run keeps them supplied to the end, where an operand has just ended. -/
theorem supplied_run {c d : Conversion} {last : Option Token} {tokens : List Token}
    (supplied : Supplied c last) (completes : Infix.Completes last tokens)
    (ran : c.run tokens = .ok d) :
    ∃ final : Token, final.category.finishes = true ∧ Supplied d (some final) := by
  induction tokens generalizing c last with
  | nil =>
      cases ran
      obtain ⟨final, isLast, finishes⟩ := completes.finishes
      cases last with
      | none => cases isLast
      | some t =>
          obtain rfl : t = final := Option.some.inj isLast
          exact ⟨t, finishes, supplied⟩
  | cons token rest ih =>
      rw [run] at ran
      split at ran
      · cases ran
      · rename_i next stepped
        exact ih (supplied_step supplied completes stepped) completes.tail ran

/-- The postfix tokens of an ordered formula grow into one tree at least. -/
theorem exists_forest {tokens out : List Token} (ordered : Infix.Ordered tokens)
    (converted : toPostfix tokens = .ok out) :
    ∃ trees, Forest.growAll [] out = some trees ∧ 1 ≤ trees.length := by
  obtain ⟨c, ran, closed, rfl⟩ := toPostfix_eq_ok_iff.mp converted
  obtain ⟨final, finishes, supplied⟩ := supplied_run supplied_start ordered.completes ran
  obtain ⟨-, trees, grown, count⟩ :=
    supplied.emit finishes (List.append_nil c.waiting) closed
  refine ⟨trees, ?_, by omega⟩
  simpa using grown

end Conversion

end Formula
