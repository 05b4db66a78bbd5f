/-
# Formula.Proofs.Conversion.Selection — what the conversion hands on

Tokens leave the conversion's stack in six places. Wherever that happens, what is
emitted is a constant or a variable that was just read, or a token that waited and is
no open parenthesis; and all that ever waits are operators, routines and open
parentheses (`step_emits`). A closing parenthesis that ends a call emits one more
token without looking at it, and it is the call's routine since the groups stay
aligned with the parentheses.

So the postfix tokens are the operands, operators and routines of the infix tokens,
each as often as before, and the operands stand in their old order
(`toPostfix_selects`). No order of the infix tokens is asked for.
-/
import Formula.Proofs.Conversion.Nesting

namespace Formula

set_option autoImplicit false

/-- What waits on the stack of a conversion until its operands are there. -/
def Category.Waits (c : Category) : Prop := c = .operator ∨ c = .routine ∨ c = .opening

theorem Category.Waits.not_grouping {c : Category} (waits : c.Waits) (closed : c ≠ .opening) :
    c.isGrouping = false := by
  rcases waits with rfl | rfl | rfl
  · rfl
  · rfl
  · exact absurd rfl closed

theorem Category.Waits.ne_constant {c : Category} (waits : c.Waits) : c ≠ .constant := by
  rcases waits with rfl | rfl | rfl <;> decide

/-- The constants and variables among some tokens. -/
def operands (tokens : List Token) : List Token := tokens.filter (·.category = .constant)

@[simp] theorem operands_append (xs ys : List Token) :
    operands (xs ++ ys) = operands xs ++ operands ys := List.filter_append xs ys

theorem operands_eq_nil {tokens : List Token} (none_ : ∀ t ∈ tokens, t.category ≠ .constant) :
    operands tokens = [] := by
  simpa [operands] using none_

namespace Conversion

variable {c d : Conversion} {token : Token} {next : Option Token}

/-- A step puts out the operand that it reads, or some of the tokens that waited; an
operator, a routine or an open parenthesis that it reads waits. -/
inductive Emits (c : Conversion) (token : Token) (d : Conversion) : Prop where
  | operand : token.category = .constant → d.emitted = token :: c.emitted →
    d.waiting = c.waiting → Emits c token d
  | waited (left : List Token) : token.category ≠ .constant → d.emitted = left ++ c.emitted →
    (∀ t ∈ left, t ∈ c.waiting ∧ t.category ≠ .opening) →
    (∀ t ∈ d.waiting, t ∈ c.waiting ∨ t = token ∧ token.category.Waits) → Emits c token d

/-- A step may put out what waits above a place, if no parenthesis does, and keep what
waits below it. -/
theorem Emits.of_above {above rest : List Token} (other : token.category ≠ .constant)
    (whole : above ++ rest = c.waiting) (closed : ∀ t ∈ above, t.category ≠ .opening)
    (emitted : d.emitted = above.reverse ++ c.emitted)
    (waiting : ∀ t ∈ d.waiting, t ∈ rest ∨ t = token ∧ token.category.Waits) :
    Emits c token d := by
  refine .waited above.reverse other emitted (fun t member => ?_) fun t member => ?_
  · rw [List.mem_reverse] at member
    rw [← whole]
    exact ⟨List.mem_append_left _ member, closed t member⟩
  · rcases waiting t member with kept | read
    · rw [← whole]
      exact .inl (List.mem_append_right _ kept)
    · exact .inr read

theorem step_emits (aligned : Aligned c.groups c.waiting) (stepped : c.step token next = .ok d) :
    Emits c token d := by
  obtain ⟨meaning, span⟩ := token
  cases meaning with
  | constant value => cases stepped; exact .operand rfl rfl rfl
  | slot index => cases stepped; exact .operand rfl rfl rfl
  | routine r =>
      cases stepped
      refine .of_above (by simp) (List.nil_append _) (by simp) rfl ?_
      exact List.forall_mem_cons.mpr ⟨.inr ⟨rfl, .inr (.inl rfl)⟩, fun t => .inl⟩
  | operator o =>
      simp only [step, Except.ok.injEq] at stepped
      subst stepped
      refine .of_above (by simp) (aheadOf_eq o c.waiting) (aheadOf_closed o c.waiting) rfl ?_
      exact List.forall_mem_cons.mpr ⟨.inr ⟨rfl, .inl rfl⟩, fun t => .inl⟩
  | opening =>
      cases stepped
      refine .of_above (by simp) (List.nil_append _) (by simp) rfl ?_
      exact List.forall_mem_cons.mpr ⟨.inr ⟨rfl, .inr (.inr rfl)⟩, fun t => .inl⟩
  | separator =>
      obtain ⟨above, below, opening, group, outer, whole, closed, -, -, -, -, rfl⟩ :=
        separate_cases aligned stepped
      exact .of_above (by simp) whole closed rfl fun t => .inl
  | closing =>
      obtain ⟨above, below, opening, outer, opens, closed, -,
        ⟨whole, -, -, rfl⟩ | ⟨call, whole, -, -, rfl⟩⟩ := close_cases aligned stepped
      · exact .of_above (by simp) whole closed rfl fun t kept =>
          .inl (List.mem_cons_of_mem _ kept)
      · -- the token below the parenthesis of a call is its routine
        refine .waited (⟨.routine call.routine, call.span⟩ :: above.reverse) (by simp) rfl
          (fun t member => ?_) fun t member => ?_
        · rw [← whole]
          rcases List.mem_cons.mp member with rfl | early
          · exact ⟨by simp, by simp⟩
          · rw [List.mem_reverse] at early
            exact ⟨List.mem_append_left _ early, closed t early⟩
        · refine .inl ?_
          rw [← whole]
          exact List.mem_append_right _
            (List.mem_cons_of_mem _ (List.mem_cons_of_mem _ member))

/-- What waits is waiting for operands, and what is emitted is no grouping. -/
structure Selective (c : Conversion) : Prop where
  aligned : Aligned c.groups c.waiting
  waiting : ∀ t ∈ c.waiting, t.category.Waits
  emitted : ∀ t ∈ c.emitted, t.category.isGrouping = false

theorem selective_start : Selective start :=
  ⟨.nil, by simp [start], by simp [start]⟩

/-- A step keeps this, and puts out an operand exactly when it reads one. -/
theorem selective_step (selective : Selective c) (stepped : c.step token next = .ok d) :
    Selective d ∧ operands d.emitted = operands [token] ++ operands c.emitted := by
  have aligned := aligned_step selective.aligned stepped
  cases step_emits selective.aligned stepped with
  | operand constant emitted waiting =>
      refine ⟨⟨aligned, waiting ▸ selective.waiting, fun t member => ?_⟩, ?_⟩
      · rw [emitted] at member
        rcases List.mem_cons.mp member with rfl | before
        · rw [constant]
          rfl
        · exact selective.emitted t before
      · rw [emitted, ← List.singleton_append, operands_append]
  | waited left other emitted drawn waiting =>
      have none_ : operands left = [] := operands_eq_nil fun t member =>
        (selective.waiting t (drawn t member).1).ne_constant
      have notRead : operands [token] = [] := operands_eq_nil (by simpa using other)
      refine ⟨⟨aligned, fun t member => ?_, fun t member => ?_⟩, ?_⟩
      · rcases waiting t member with before | ⟨rfl, waits⟩
        · exact selective.waiting t before
        · exact waits
      · rw [emitted] at member
        rcases List.mem_append.mp member with here | before
        · obtain ⟨waited, closed⟩ := drawn t here
          exact (selective.waiting t waited).not_grouping closed
        · exact selective.emitted t before
      · rw [emitted, operands_append, none_, notRead]

/-- A run puts out the operands that it reads, in their order. -/
theorem selective_run {tokens : List Token} (selective : Selective c)
    (ran : c.run tokens = .ok d) :
    Selective d ∧ operands d.emitted = operands tokens.reverse ++ operands c.emitted := by
  induction tokens generalizing c with
  | nil =>
      cases ran
      exact ⟨selective, rfl⟩
  | cons token rest ih =>
      rw [run] at ran
      split at ran
      · cases ran
      · rename_i middle stepped
        obtain ⟨kept, here⟩ := selective_step selective stepped
        obtain ⟨selective', later⟩ := ih kept ran
        refine ⟨selective', ?_⟩
        rw [later, here, List.reverse_cons, operands_append, List.append_assoc]

end Conversion

open Conversion in
/-- Whatever tokens are converted, in an acceptable order or not: the postfix tokens
are their operands, operators and routines, each as often as it occurs among them, with
no parenthesis and no separator, and the operands are in the order in which they were. -/
theorem toPostfix_selects {tokens out : List Token} (converted : toPostfix tokens = .ok out) :
    out.Perm (material tokens) ∧
      (∀ t ∈ out, t.category ≠ .opening ∧ t.category ≠ .closing ∧ t.category ≠ .separator) ∧
      operands out = operands tokens := by
  have perm := toPostfix_perm converted
  obtain ⟨c, ran, closed, rfl⟩ := toPostfix_eq_ok_iff.mp converted
  obtain ⟨selective, inOrder⟩ := selective_run selective_start ran
  have ungrouped : ∀ t ∈ c.emitted.reverse ++ c.waiting, t.category.isGrouping = false := by
    intro t member
    rcases List.mem_append.mp member with emitted | waits
    · exact selective.emitted t (List.mem_reverse.mp emitted)
    · exact (selective.waiting t waits).not_grouping (closed t waits)
  have whole : material (c.emitted.reverse ++ c.waiting) = c.emitted.reverse ++ c.waiting :=
    List.filter_eq_self.mpr fun t member => by simp [ungrouped t member]
  refine ⟨whole ▸ perm, fun t member => ?_, ?_⟩
  · have none_ := ungrouped t member
    refine ⟨?_, ?_, ?_⟩ <;> intro same <;> simp [same, Category.isGrouping] at none_
  · have waits : operands c.waiting = [] := operands_eq_nil fun t member =>
      (selective.waiting t member).ne_constant
    have reversed : operands c.emitted.reverse = (operands c.emitted).reverse :=
      List.filter_reverse
    rw [operands_append, waits, reversed, inOrder, operands, List.filter_reverse]
    simp [start, operands]

/-- A routine without arguments leaves the stack before the operator that follows it,
and a separator may stand in a group that is no call: these tokens are out of order, and
are converted. -/
theorem toPostfix_selects_unordered :
    let minus : Operator := ⟨"-", 2, .left, fun a b => a - b, false⟩
    let first : Routine := ⟨"first", 2, fun values => values.headD 0.0, false⟩
    let tokens : List Token := [⟨.slot 1, ⟨0, 1⟩⟩, ⟨.operator minus, ⟨1, 2⟩⟩,
      ⟨.routine first, ⟨2, 7⟩⟩, ⟨.operator minus, ⟨7, 8⟩⟩, ⟨.opening, ⟨8, 9⟩⟩, ⟨.slot 0, ⟨9, 10⟩⟩,
      ⟨.separator, ⟨10, 11⟩⟩, ⟨.closing, ⟨11, 12⟩⟩]
    let out : List Token := [⟨.slot 1, ⟨0, 1⟩⟩, ⟨.routine first, ⟨2, 7⟩⟩, ⟨.slot 0, ⟨9, 10⟩⟩,
      ⟨.operator minus, ⟨7, 8⟩⟩, ⟨.operator minus, ⟨1, 2⟩⟩]
    Infix.fault? tokens = some (.misplaced .parenthesisDue ⟨7, 8⟩) ∧ toPostfix tokens = .ok out ∧
      out.Perm (Conversion.material tokens) ∧
      (∀ t ∈ out, t.category ≠ .opening ∧ t.category ≠ .closing ∧ t.category ≠ .separator) ∧
      operands out = operands tokens := by
  intro minus first tokens out
  have converted : toPostfix tokens = .ok out := rfl
  exact ⟨rfl, converted, toPostfix_selects converted⟩

end Formula
