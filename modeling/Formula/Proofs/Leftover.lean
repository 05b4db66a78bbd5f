/-
# Formula.Proofs.Leftover — how many values a formula leaves over

Tokens whose order was checked and that could be put in postfix order are
complete but for operands without a place. There are two kinds of these: an
operand right after another one (`Infix.adjoining`), and one more for every
separator directly inside parentheses that open no call
(`Infix.straySeparators`). Both can be counted on the source tokens.

Such tokens always grow into trees, so a missing operand is never what stops the
assembly; and as long as every routine takes an argument there is one tree more than
there are operands without a place (`leftover_of_postfix`).
-/
import Formula.Proofs.Conversion.Supply

namespace Formula

set_option autoImplicit false

namespace Infix

/-- The places where an operand starts right after another one has ended. -/
def adjoining : List Token → Nat
  | first :: second :: rest =>
    (if first.category.finishes && second.category.starts then 1 else 0) + adjoining (second :: rest)
  | _ => 0

/-- The separators directly inside parentheses that open no call. The list says of
every open parenthesis, innermost first, whether it opens a call. -/
def straySeparators (calls : List Bool) (last : Option Token) : List Token → Nat
  | [] => 0
  | token :: rest =>
    match token.category, calls with
    | .opening, _ =>
      straySeparators (last.any (·.category = .routine) :: calls) (some token) rest
    | .closing, _ :: outer => straySeparators outer (some token) rest
    | .separator, false :: outer => 1 + straySeparators (false :: outer) (some token) rest
    | _, calls => straySeparators calls (some token) rest

/-- The operands of some tokens that have no place in a formula. -/
def unplaced (tokens : List Token) : Nat := adjoining tokens + straySeparators [] none tokens

end Infix

namespace Nesting

open Infix

/-- A call that is not marked as overfull has not begun more arguments than it takes. -/
def Counted : Group → Prop
  | none => True
  | some call => call.excess = none → call.arguments ≤ call.routine.arity

theorem Counted.nextArgument {group : Group} (counted : Counted group) (place : Span) :
    Counted (group.map (·.nextArgument place)) := by
  cases group with
  | none => trivial
  | some call =>
      intro unmarked
      simp only [OpenCall.nextArgument] at unmarked ⊢
      split at unmarked
      · cases unmarked
      · rename_i notOver
        rw [not_and_or] at notOver
        rcases notOver with room | marked
        · omega
        · exact absurd unmarked marked

/-- A parenthesis starts the first argument of a call, which every routine takes. -/
theorem counted_groupAbove {last : Option Token}
    (takes : ∀ r span, last = some ⟨.routine r, span⟩ → 0 < r.arity) :
    Counted (Conversion.groupAbove last.toList) := by
  cases last with
  | none => trivial
  | some t =>
      obtain ⟨meaning, span⟩ := t
      cases meaning with
      | routine r => exact fun _ => takes r span rfl
      | _ => trivial

theorem arguments_le {call : OpenCall} (counted : Counted (some call))
    (complete : call.fault? = none) : call.arguments ≤ call.routine.arity := by
  refine counted ?_
  unfold OpenCall.fault? at complete
  split at complete
  · cases complete
  · exact Option.map_eq_none_iff.mp complete

theorem isSome_groupAbove (last : Option Token) :
    (Conversion.groupAbove last.toList).isSome = last.any (·.category = .routine) := by
  cases last with
  | none => rfl
  | some t =>
      obtain ⟨meaning, span⟩ := t
      cases meaning <;> simp [Conversion.groupAbove]

theorem adjoining_cons (last : Option Token) (token : Token) (rest : List Token) :
    adjoining (last.toList ++ token :: rest) =
      (if token.category.starts then completed last else 0) + adjoining (token :: rest) := by
  cases last with
  | none => simp [completed]
  | some t =>
      rw [Option.toList_some, List.singleton_append, adjoining]
      congr 1
      simp only [completed, Option.any_some, Bool.and_eq_true, ← ite_and, and_comm]

/-- A token leaves an operand without a place if it starts one right after another
one, or if it is a separator in parentheses that open no call. -/
theorem surplus_step {groups groups' : List Group} {last : Option Token} {token : Token}
    {next : Option Token} (stepped : step groups last token next = .ok groups')
    (takes : ∀ r span, last = some ⟨.routine r, span⟩ → 0 < r.arity)
    (counted : ∀ group ∈ groups, Counted group) (rest : List Token) :
    (∀ group ∈ groups', Counted group) ∧
      surplus groups last token + straySeparators (groups'.map Option.isSome) (some token) rest =
        (if token.category.starts then completed last else 0) +
          straySeparators (groups.map Option.isSome) last (token :: rest) := by
  obtain ⟨meaning, span⟩ := token
  cases meaning with
  | constant value => cases stepped; exact ⟨counted, rfl⟩
  | slot index => cases stepped; exact ⟨counted, rfl⟩
  | routine r => cases stepped; exact ⟨counted, rfl⟩
  | operator o => cases stepped; exact ⟨counted, rfl⟩
  | opening =>
      cases stepped
      refine ⟨fun group member => ?_, ?_⟩
      · rcases List.mem_cons.mp member with rfl | outer
        · exact counted_groupAbove takes
        · exact counted group outer
      · rw [List.map_cons, isSome_groupAbove]
        rfl
  | separator =>
      cases groups with
      | nil => cases stepped
      | cons group outer =>
          cases stepped
          refine ⟨fun other member => ?_, ?_⟩
          · rcases List.mem_cons.mp member with rfl | later
            · exact (counted group (List.mem_cons_self ..)).nextArgument _
            · exact counted other (List.mem_cons_of_mem _ later)
          · cases group with
            | none => exact (Nat.zero_add _).symm
            | some call => rfl
  | closing =>
      cases groups with
      | nil => cases stepped
      | cons group outer =>
          cases group with
          | none =>
              cases stepped
              exact ⟨fun other member => counted other (List.mem_cons_of_mem _ member), rfl⟩
          | some call =>
              simp only [step, Option.bind_some] at stepped
              split at stepped
              · cases stepped
              · rename_i complete
                cases stepped
                have within := arguments_le (counted _ (List.mem_cons_self ..)) complete
                refine ⟨fun other member => counted other (List.mem_cons_of_mem _ member), ?_⟩
                have none_ : surplus (some call :: groups') last ⟨.closing, span⟩ = 0 := by
                  simp only [surplus]
                  omega
                rw [none_]
                rfl

/-- In balanced tokens the surplus is what the count of neighbours and the count of
separators find. -/
theorem Balanced.surplus_eq {groups : List Group} {last : Option Token} {tokens : List Token}
    {n : Nat} (balanced : Balanced groups last tokens n)
    (takes : ∀ r span, ⟨.routine r, span⟩ ∈ last.toList ++ tokens → 0 < r.arity)
    (counted : ∀ group ∈ groups, Counted group) :
    n = adjoining (last.toList ++ tokens) +
      straySeparators (groups.map Option.isSome) last tokens := by
  induction balanced with
  | nil =>
      rename_i last
      cases last <;> rfl
  | @cons groups groups' last token rest n stepped _ ih =>
      obtain ⟨counted', here⟩ := surplus_step stepped
        (fun r span isLast => takes r span (by simp [isLast])) counted rest
      have later := ih (fun r span member => takes r span (List.mem_append_right _ member)) counted'
      rw [Option.toList_some, List.singleton_append] at later
      rw [adjoining_cons]
      omega

end Nesting

/-! ## What is left on the stack -/

/-- The postfix tokens weigh one at least. Where every routine takes an argument, what
they weigh beyond it is the number of operands without a place. -/
theorem exists_weight_of_postfix {tokens out : List Token} (ordered : Infix.Ordered tokens)
    (converted : toPostfix tokens = .ok out) :
    ∃ surplus : Nat, weightOf out = 1 + surplus ∧
      ((∀ r span, ⟨.routine r, span⟩ ∈ tokens → 0 < r.arity) →
        surplus = Infix.unplaced tokens) := by
  obtain ⟨c, ran, closed, -⟩ := Conversion.toPostfix_eq_ok_iff.mp converted
  obtain ⟨n, balanced⟩ : ∃ n, Nesting.Balanced [] none tokens n :=
    Nesting.balanced_of_run .nil ⟨.nil, rfl⟩ ordered.completes ran closed
  have owed : Nesting.owed [] none = 0 := rfl
  refine ⟨n, ?_, fun takes => balanced.surplus_eq takes (by simp)⟩
  rw [weight_toPostfix converted, balanced.weight ordered.completes, owed]
  omega

/-- Of several operands the second is reported. -/
theorem Assembly.finish_of_two {stack : List Operand} (several : 2 ≤ stack.length) :
    ∃ span, finish stack = .error (.constantsExcess span) := by
  have length : 2 ≤ stack.reverse.length := by rwa [List.length_reverse]
  unfold finish
  match stack.reverse, length with
  | _ :: second :: _, _ => exact ⟨second.span, rfl⟩

/-- What an assembly makes of the operands that are left. -/
theorem ofPostfix_of_run {out : List Token} {stack : List Operand} {surplus : Nat}
    (ran : Assembly.run [] out = .ok stack) (length : stack.length = 1 + surplus) :
    (surplus = 0 → ∃ t, stack.map Operand.tree = [t] ∧ Tree.ofPostfix out = .ok t) ∧
      (1 ≤ surplus ↔ ∃ span, Tree.ofPostfix out = .error (.constantsExcess span)) := by
  have result : Tree.ofPostfix out = Assembly.finish stack := by rw [Tree.ofPostfix, ran]
  have alone : surplus = 0 → ∃ t, stack.map Operand.tree = [t] ∧ Tree.ofPostfix out = .ok t := by
    intro none_
    obtain ⟨root, rfl⟩ := List.length_eq_one_iff.mp (show stack.length = 1 by omega)
    exact ⟨root.tree, rfl, result⟩
  refine ⟨alone, fun some_ => ?_, ?_⟩
  · obtain ⟨span, fails⟩ := Assembly.finish_of_two (show 2 ≤ stack.length by omega)
    exact ⟨span, result.trans fails⟩
  · rintro ⟨span, fails⟩
    rcases Nat.eq_zero_or_pos surplus with none_ | some_
    · obtain ⟨t, -, built⟩ := alone none_
      rw [built] at fails
      cases fails
    · exact some_

/-- Tokens that are in order and could be put in postfix order grow into trees, and if
the assembly fails then for a tree that is too high or for an operand too much. If none
of the trees is too high, they are what is left on the stack. Let every routine among
the tokens take an argument, as those do that can be defined. Then there is one more of
these trees than there are operands without a place: one tree is the result, and of
several the second is reported as too much. Where a tree is too high, the assembly stops
at the token that goes over the limit. -/
theorem leftover_of_postfix {tokens checked out : List Token}
    (isChecked : Infix.check tokens = .ok checked) (converted : toPostfix checked = .ok out) :
    (∀ fault, Tree.ofPostfix out = .error fault →
        ∃ span, fault = .tooDeep Tree.maxHeight span ∨ fault = .constantsExcess span) ∧
      ∃ trees : List Tree, Forest.growAll [] out = some trees ∧
        (Tree.heightOfAll trees ≤ Tree.maxHeight →
          ∃ stack, Assembly.run [] out = .ok stack ∧ stack.map Operand.tree = trees ∧
            ((∀ r span, ⟨.routine r, span⟩ ∈ tokens → 0 < r.arity) →
              stack.length = 1 + Infix.unplaced tokens ∧
                (Infix.unplaced tokens = 0 → ∃ t, trees = [t] ∧ Tree.ofPostfix out = .ok t) ∧
                (1 ≤ Infix.unplaced tokens ↔
                  ∃ span, Tree.ofPostfix out = .error (.constantsExcess span)))) ∧
        (Tree.maxHeight < Tree.heightOfAll trees → ∃ token ∈ out,
          Tree.ofPostfix out = .error (.tooDeep Tree.maxHeight token.span)) := by
  obtain ⟨rfl, ordered⟩ := Infix.check_eq_ok_iff.mp isChecked
  obtain ⟨trees, grown, -⟩ := Conversion.exists_forest ordered converted
  obtain ⟨surplus, weight, counted⟩ := exists_weight_of_postfix ordered converted
  have measured : Forest.Measured [] := by simp [Forest.Measured]
  obtain ⟨builds, stops⟩ := Forest.run_of_growAll measured (by simp [Tree.heightOfAll]) grown
  have low : Tree.heightOfAll trees ≤ Tree.maxHeight →
      ∃ stack, Assembly.run [] out = .ok stack ∧ stack.map Operand.tree = trees ∧
        stack.length = 1 + surplus := by
    intro low
    obtain ⟨stack, ran, treesEq⟩ := builds low
    have length := Assembly.run_length ran
    rw [weight, List.length_nil] at length
    exact ⟨stack, ran, treesEq, by omega⟩
  have high : Tree.maxHeight < Tree.heightOfAll trees → ∃ token ∈ out,
      Tree.ofPostfix out = .error (.tooDeep Tree.maxHeight token.span) := by
    intro high
    obtain ⟨token, member, fails⟩ := stops high
    exact ⟨token, member, by rw [Tree.ofPostfix, fails]⟩
  refine ⟨fun fault failed => ?_, trees, grown, fun isLow => ?_, high⟩
  · rcases Nat.lt_or_ge Tree.maxHeight (Tree.heightOfAll trees) with isHigh | isLow
    · obtain ⟨token, -, fails⟩ := high isHigh
      rw [fails] at failed
      exact ⟨token.span, .inl (Except.error.inj failed).symm⟩
    · obtain ⟨stack, ran, -, length⟩ := low isLow
      obtain ⟨alone, several⟩ := ofPostfix_of_run ran length
      rcases Nat.eq_zero_or_pos surplus with none_ | some_
      · obtain ⟨t, -, built⟩ := alone none_
        rw [built] at failed
        cases failed
      · obtain ⟨span, fails⟩ := several.mp some_
        rw [fails] at failed
        exact ⟨span, .inr (Except.error.inj failed).symm⟩
  · obtain ⟨stack, ran, treesEq, length⟩ := low isLow
    refine ⟨stack, ran, treesEq, fun takes => ?_⟩
    rw [counted takes] at length
    obtain ⟨alone, several⟩ := ofPostfix_of_run ran length
    rw [treesEq] at alone
    exact ⟨length, alone, several⟩

/-- In `f(1 2, (3, 4))` two operands stand side by side in an argument, and two in
parentheses that open no call. -/
theorem leftover_of_postfix_call :
    let f : Routine := ⟨"f", 2, fun _ => 0.0, false⟩
    let tokens : List Token := [.routine f, .opening, .constant 1.0, .constant 2.0, .separator,
      .opening, .constant 3.0, .separator, .constant 4.0, .closing, .closing].map (⟨·, ⟨0, 0⟩⟩)
    (∀ r span, ⟨.routine r, span⟩ ∈ tokens → 0 < r.arity) ∧
      Infix.check tokens = .ok tokens ∧ Infix.unplaced tokens = 2 ∧
      ∃ out, toPostfix tokens = .ok out ∧
        ∃ stack, Assembly.run [] out = .ok stack ∧ stack.length = 3 := by
  intro f tokens
  have takes : ∀ r span, ⟨.routine r, span⟩ ∈ tokens → 0 < r.arity := by
    intro r span member
    simp only [tokens, List.map_cons, List.map_nil, List.mem_cons, List.not_mem_nil, or_false,
      Token.mk.injEq, reduceCtorEq, false_and, Meaning.routine.injEq] at member
    obtain ⟨rfl, -⟩ := member
    decide
  have checked : Infix.check tokens = .ok tokens := rfl
  obtain ⟨-, trees, grown, low, -⟩ := leftover_of_postfix checked rfl
  cases grown
  obtain ⟨stack, ran, -, counts⟩ := low (by decide)
  exact ⟨takes, rfl, rfl, _, rfl, stack, ran, (counts takes).1⟩

end Formula
