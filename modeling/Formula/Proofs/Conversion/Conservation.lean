/-
# Formula.Proofs.Conversion.Conservation — what the conversion keeps

Between two steps every operand, operator and routine read so far is either
emitted or waiting, once each: a step adds the token it reads and may drop
parentheses and separators, which is all it drops (`held_step`, `run_perm`).
So the postfix tokens are the infix tokens without grouping, in another order
(`toPostfix_perm`).

It follows how many operands an assembly of the postfix tokens leaves. Every
token changes their number by its `weight`, and the weights of the postfix
tokens add up to those of the infix tokens (`weight_toPostfix`).
-/
import Formula.Postfix
import Formula.Proofs.Grammar.Order
import Formula.Tree.Assembly

namespace Formula

set_option autoImplicit false

/-- Parentheses and separators, which postfix order makes superfluous. -/
def Category.isGrouping : Category → Bool
  | .opening | .closing | .separator => true
  | .constant | .operator | .routine => false

namespace Conversion

/-- The tokens that are not grouping. -/
def material (tokens : List Token) : List Token :=
  tokens.filter fun t => !t.category.isGrouping

@[simp] theorem material_append (xs ys : List Token) :
    material (xs ++ ys) = material xs ++ material ys := List.filter_append xs ys

theorem material_cons_grouping {t : Token} (grouping : t.category.isGrouping = true)
    (ts : List Token) : material (t :: ts) = material ts := by
  simp [material, grouping]

/-- What is emitted or waits. -/
def held (c : Conversion) : List Token := c.emitted ++ c.waiting

/-! ## Splitting the stack loses nothing -/

theorem aboveOpening_eq {waiting above rest : List Token}
    (splits : aboveOpening waiting = some (above, rest)) :
    above ++ rest = waiting ∧ (∀ t ∈ above, t.category ≠ .opening) ∧
      ∃ opening below, rest = opening :: below ∧ opening.category = .opening := by
  induction waiting generalizing above with
  | nil => simp [aboveOpening] at splits
  | cons top below ih =>
      rw [aboveOpening] at splits
      split at splits
      · rename_i opens
        cases splits
        exact ⟨rfl, by simp, top, below, rfl, opens⟩
      · rename_i closed
        obtain ⟨⟨above', rest'⟩, inner, same⟩ := Option.map_eq_some_iff.mp splits
        cases same
        obtain ⟨whole, none_, found⟩ := ih inner
        refine ⟨by rw [List.cons_append, whole], fun t member => ?_, found⟩
        rcases List.mem_cons.mp member with rfl | later
        · exact closed
        · exact none_ t later

theorem aboveOpening_eq_none {waiting : List Token} (none_ : aboveOpening waiting = none) :
    ∀ t ∈ waiting, t.category ≠ .opening := by
  induction waiting with
  | nil => simp
  | cons top below ih =>
      rw [aboveOpening] at none_
      split at none_
      · cases none_
      · rename_i closed
        intro t member
        rcases List.mem_cons.mp member with rfl | later
        · exact closed
        · exact ih (Option.map_eq_none_iff.mp none_) t later

/-- An operator never goes past an open parenthesis. -/
theorem aheadOf_closed (o : Operator) (waiting : List Token) :
    ∀ t ∈ (aheadOf o waiting).1, t.category ≠ .opening := by
  induction waiting with
  | nil => simp [aheadOf]
  | cons top below ih =>
      rw [aheadOf]
      split
      · rename_i r meaning
        simp [Token.category, meaning]
      · rename_i p meaning
        split
        · intro t member
          rcases List.mem_cons.mp member with rfl | later
          · simp [Token.category, meaning]
          · exact ih t later
        · simp
      · simp

theorem aheadOf_eq (o : Operator) (waiting : List Token) :
    (aheadOf o waiting).1 ++ (aheadOf o waiting).2 = waiting := by
  induction waiting with
  | nil => rfl
  | cons top below ih =>
      rw [aheadOf]
      split
      · rfl
      · split
        · simpa using ih
        · rfl
      · rfl

/-- Emitting what waited on top changes the order only. -/
theorem emit_perm (above emitted rest : List Token) :
    ((above.reverse ++ emitted) ++ rest).Perm (emitted ++ (above ++ rest)) := by
  rw [← List.append_assoc]
  exact (((List.reverse_perm above).append_right emitted).trans List.perm_append_comm).append_right
    rest

/-! ## A step and a run -/

theorem separate_perm {c d : Conversion} {token : Token} {next : Option Token}
    (separated : c.separate token next = .ok d) : d.held.Perm c.held := by
  unfold separate at separated
  cases splits : aboveOpening c.waiting with
  | none => simp [splits] at separated
  | some parts =>
      obtain ⟨above, rest⟩ := parts
      simp only [splits, Except.ok.injEq] at separated
      subst separated
      simp only [held, emit]
      rw [← (aboveOpening_eq splits).1]
      exact emit_perm above c.emitted rest

/-- A closing parenthesis emits what waits above the innermost one, and after a
complete call also the token below it. -/
theorem close_eq_ok {c d : Conversion} {token : Token} (closed : c.close token = .ok d) :
    ∃ (above below : List Token) (opening : Token) (group : Group) (outer : List Group),
      aboveOpening c.waiting = some (above, opening :: below) ∧ c.groups = group :: outer ∧
        ((group = none ∧ d = ⟨below, outer, above.reverse ++ c.emitted⟩) ∨
          ∃ call, group = some call ∧ call.fault? = none ∧
            d = ⟨below.tail, outer, below.head?.toList ++ (above.reverse ++ c.emitted)⟩) := by
  unfold close at closed
  split at closed
  · rename_i above opening below group groups splits open_
    refine ⟨above, below, opening, group, groups, splits, open_, ?_⟩
    split at closed
    · cases closed
      exact .inl ⟨rfl, rfl⟩
    · rename_i call
      split at closed
      · cases closed
      · rename_i callee rest complete
        cases closed
        exact .inr ⟨call, rfl, complete, rfl⟩
      · rename_i complete
        cases closed
        exact .inr ⟨call, rfl, complete, rfl⟩
  · cases closed

theorem close_perm {c d : Conversion} {token : Token} (closed : c.close token = .ok d) :
    ∃ opening : Token, opening.category = .opening ∧ (opening :: d.held).Perm c.held := by
  obtain ⟨above, below, opening, group, outer, splits, -, becomes⟩ := close_eq_ok closed
  obtain ⟨whole, -, _, _, same, opens⟩ := aboveOpening_eq splits
  cases same
  refine ⟨opening, opens, ?_⟩
  -- Without the open parenthesis, what was above it is emitted and the rest still waits.
  have without : (opening :: (above.reverse ++ c.emitted ++ below)).Perm c.held := by
    rw [held, ← whole]
    exact List.perm_middle.symm.trans (emit_perm above c.emitted (opening :: below))
  rcases becomes with ⟨-, rfl⟩ | ⟨call, -, -, rfl⟩
  · exact without
  · cases below with
    | nil => exact without
    | cons callee rest =>
        have moved : (callee :: (above.reverse ++ c.emitted) ++ rest).Perm
            (above.reverse ++ c.emitted ++ callee :: rest) := List.perm_middle.symm
        exact (moved.cons opening).trans without

/-- What is held after a step was held before it, or is the token read; all that is
dropped is grouping. -/
theorem held_step {c d : Conversion} {token : Token} {next : Option Token}
    (stepped : c.step token next = .ok d) :
    ∃ dropped, (∀ t ∈ dropped, t.category.isGrouping = true) ∧
      (dropped ++ d.held).Perm (token :: c.held) := by
  obtain ⟨meaning, span⟩ := token
  cases meaning with
  | constant value => cases stepped; exact ⟨[], by simp, List.Perm.refl _⟩
  | slot index => cases stepped; exact ⟨[], by simp, List.Perm.refl _⟩
  | operator o =>
      simp only [step, Except.ok.injEq] at stepped
      subst stepped
      have moved := emit_perm (aheadOf o c.waiting).1 c.emitted (aheadOf o c.waiting).2
      rw [aheadOf_eq] at moved
      exact ⟨[], by simp, List.perm_middle.trans (moved.cons _)⟩
  | routine r =>
      cases stepped
      exact ⟨[], by simp, List.perm_middle⟩
  | opening =>
      cases stepped
      exact ⟨[], by simp, List.perm_middle⟩
  | closing =>
      obtain ⟨opening, opens, kept⟩ := close_perm stepped
      refine ⟨[⟨.closing, span⟩, opening], fun t member => ?_, kept.cons _⟩
      simp only [List.mem_cons, List.not_mem_nil, or_false] at member
      rcases member with rfl | rfl
      · rfl
      · rw [opens]; rfl
  | separator =>
      refine ⟨[⟨.separator, span⟩], fun t member => ?_, (separate_perm stepped).cons _⟩
      rw [List.mem_singleton.mp member]
      rfl

/-- A step adds the token it reads, and drops at most grouping. -/
theorem step_perm {c d : Conversion} {token : Token} {next : Option Token}
    (stepped : c.step token next = .ok d) :
    (material d.held).Perm (material (token :: c.held)) := by
  obtain ⟨dropped, grouping, kept⟩ := held_step stepped
  have nothing : material dropped = [] := by
    simpa [material] using grouping
  have same : (material (dropped ++ d.held)).Perm (material (token :: c.held)) := kept.filter _
  rwa [material_append, nothing, List.nil_append] at same

theorem run_perm {c d : Conversion} {tokens : List Token} (ran : c.run tokens = .ok d) :
    (material d.held).Perm (material (tokens ++ c.held)) := by
  induction tokens generalizing c with
  | nil =>
      cases ran
      exact List.Perm.refl _
  | cons token rest ih =>
      rw [run] at ran
      split at ran
      · cases ran
      · rename_i next stepped
        have here := step_perm stepped
        have later := ih ran
        rw [material_append] at later
        refine later.trans ((here.append_left _).trans ?_)
        rw [← material_append]
        exact List.perm_middle.filter _

theorem finish_eq_ok_iff {c : Conversion} {out : List Token} :
    c.finish = .ok out ↔
      (∀ t ∈ c.waiting, t.category ≠ .opening) ∧ out = c.emitted.reverse ++ c.waiting := by
  unfold finish
  cases found : c.waiting.find? (·.category = .opening) with
  | some opening =>
      simp only [reduceCtorEq, false_iff, not_and]
      intro closed
      have member := List.mem_of_find?_eq_some found
      have opens := List.find?_some found
      exact absurd (by simpa using opens) (closed opening member)
  | none =>
      have closed : ∀ t ∈ c.waiting, t.category ≠ .opening := by
        simpa using List.find?_eq_none.mp found
      constructor
      · rintro ⟨⟩
        exact ⟨closed, by simp [emit]⟩
      · rintro ⟨-, rfl⟩
        simp [emit]

/-- The conversion ends in success when it has read all tokens and none of the
waiting ones is an open parenthesis. -/
theorem toPostfix_eq_ok_iff {tokens out : List Token} :
    toPostfix tokens = .ok out ↔ ∃ c : Conversion, start.run tokens = .ok c ∧
      (∀ t ∈ c.waiting, t.category ≠ .opening) ∧ out = c.emitted.reverse ++ c.waiting := by
  unfold toPostfix
  cases ran : start.run tokens with
  | error fault => simp
  | ok c => simp [finish_eq_ok_iff]

/-- The postfix tokens are the infix tokens without grouping, in another order. -/
theorem toPostfix_perm {tokens out : List Token} (converted : toPostfix tokens = .ok out) :
    (material out).Perm (material tokens) := by
  obtain ⟨c, ran, -, rfl⟩ := toPostfix_eq_ok_iff.mp converted
  have kept := run_perm ran
  simp only [start, held, List.append_nil] at kept
  exact (((List.reverse_perm c.emitted).append_right c.waiting).filter _).trans kept

end Conversion

/-! ## Weights -/

/-- By how much a token changes the number of operands. -/
def Token.weight (t : Token) : Int :=
  match t.meaning with
  | .constant _ => 1
  | .slot _ => 1
  | .operator _ => -1
  | .routine r => 1 - r.arity
  | _ => 0

def weightOf : List Token → Int
  | [] => 0
  | t :: ts => t.weight + weightOf ts

theorem Token.weight_of_grouping {t : Token} (grouping : t.category.isGrouping = true) :
    t.weight = 0 := by
  obtain ⟨meaning, span⟩ := t
  cases meaning <;> simp_all [Category.isGrouping, Token.weight]

theorem weightOf_perm {xs ys : List Token} (perm : xs.Perm ys) : weightOf xs = weightOf ys := by
  induction perm with
  | nil => rfl
  | cons t _ ih => rw [weightOf, weightOf, ih]
  | swap t u xs =>
      simp only [weightOf]
      omega
  | trans _ _ first second => rw [first, second]

theorem weightOf_material (tokens : List Token) :
    weightOf (Conversion.material tokens) = weightOf tokens := by
  induction tokens with
  | nil => rfl
  | cons t ts ih =>
      by_cases grouping : t.category.isGrouping = true
      · rw [Conversion.material_cons_grouping grouping, ih]
        simp [weightOf, Token.weight_of_grouping grouping]
      · simpa [Conversion.material, grouping, weightOf] using ih

/-- The conversion keeps the sum of the weights. -/
theorem weight_toPostfix {tokens out : List Token} (converted : toPostfix tokens = .ok out) :
    weightOf out = weightOf tokens := by
  rw [← weightOf_material out, ← weightOf_material tokens]
  exact weightOf_perm (Conversion.toPostfix_perm converted)

namespace Assembly

theorem push_length {stack stack' : List Operand} {span : Span} {operand : Operand}
    (pushed : push stack span operand = .ok stack') : stack'.length = stack.length + 1 := by
  unfold push at pushed
  split at pushed
  · cases pushed
  · cases pushed; rfl

theorem step_length {stack stack' : List Operand} {token : Token}
    (stepped : step stack token = .ok stack') :
    (stack'.length : Int) = stack.length + token.weight := by
  obtain ⟨meaning, span⟩ := token
  cases meaning with
  | constant value => simp [push_length stepped, Token.weight]
  | slot index => simp [push_length stepped, Token.weight]
  | operator o =>
      simp only [step] at stepped
      split at stepped
      · simp only [push_length stepped, Token.weight, List.length_cons]
        omega
      · cases stepped
  | routine r =>
      simp only [step] at stepped
      split at stepped
      · cases stepped
      · simp only [push_length stepped, Token.weight, List.length_drop]
        omega
  | opening => cases stepped
  | closing => cases stepped
  | separator => cases stepped

/-- The number of operands changes by the sum of the weights. -/
theorem run_length {stack stack' : List Operand} {tokens : List Token}
    (ran : run stack tokens = .ok stack') :
    (stack'.length : Int) = stack.length + weightOf tokens := by
  induction tokens generalizing stack with
  | nil =>
      cases ran
      simp [weightOf]
  | cons token rest ih =>
      rw [run] at ran
      split at ran
      · cases ran
      · rename_i next stepped
        rw [ih ran, step_length stepped, weightOf]
        omega

/-- An assembly that succeeds leaves one operand, so the weights add up to one. -/
theorem weight_of_ofPostfix {tokens : List Token} {t : Tree}
    (built : Tree.ofPostfix tokens = .ok t) : weightOf tokens = 1 := by
  unfold Tree.ofPostfix at built
  split at built
  · cases built
  · rename_i stack ran
    have length := run_length ran
    have one : stack.length = 1 := by
      unfold finish at built
      split at built
      · cases built
      · rename_i root reversed
        simpa using congrArg List.length reversed
      · cases built
    simp only [List.length_nil] at length
    omega

end Assembly

end Formula
