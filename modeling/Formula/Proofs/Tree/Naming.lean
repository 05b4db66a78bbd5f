/-
# Formula.Proofs.Tree.Naming — variables by name in the written form

The written form of a tree names its variables by slot, as a number after a
dollar sign. `fillSlots` replaces every such number in a text by the name that
it counts off. A dollar sign may also be part of an operator's symbol; there no
digit follows it, so it stays. What comes out is the written form with the names
of the variables (`fillSlots_render`).

This holds of the trees that are `Over` a scope: their operators and routines are
those of its registry, their variables have names, and their constants are
finite. No part of such a tree is written with a number after a dollar sign
except for a variable.
-/
import Formula.Lexer
import Formula.Proofs.Lexer.Symbols
import Formula.Proofs.Number.Display
import Formula.Tree

namespace Formula

set_option autoImplicit false

/-- The name of a variable, by slot. -/
def Scope.nameOf (scope : Scope) (index : Nat) : List Char :=
  (scope.names[index]?.getD "").toList

/-- A text in which each number after a dollar sign is replaced by the name of the
variable with that slot. -/
def Scope.fillSlots (scope : Scope) : List Char → List Char
  | [] => []
  | c :: cs =>
    let digits := cs.takeWhile Char.isDigit
    if c = '$' ∧ digits ≠ [] then
      scope.nameOf (Number.Decimal.ofDigits digits) ++ fillSlots scope (cs.dropWhile Char.isDigit)
    else c :: fillSlots scope cs
termination_by cs => cs.length
decreasing_by
  · have shorter := (List.dropWhile_sublist (p := Char.isDigit) (l := cs)).length_le
    simp only [List.length_cons]
    omega
  · simp

namespace Tree

/-- A tree over the variables and definitions of a scope. -/
inductive Over (scope : Scope) : Tree → Prop where
  | constant {value : Float} : value.isFinite = true → Over scope (.constant value)
  | slot {index : Nat} : index < scope.names.length → Over scope (.slot index)
  | apply {o : Operator} {lhs rhs : Tree} :
    scope.registry.operator? o.symbol = some o → Over scope lhs → Over scope rhs →
    Over scope (.apply o lhs rhs)
  | call {r : Routine} {arguments : List Tree} :
    scope.registry.routine? r.name = some r → r.name ∉ scope.names →
    arguments.length = r.arity → (∀ t ∈ arguments, Over scope t) →
    Over scope (.call r arguments)

end Tree

namespace Scope

variable {scope : Scope}

theorem fillSlots_cons {c : Char} {cs : List Char}
    (plain : c ≠ '$' ∨ cs.takeWhile Char.isDigit = []) :
    scope.fillSlots (c :: cs) = c :: scope.fillSlots cs := by
  rw [fillSlots]
  refine if_neg ?_
  rintro ⟨dollar, digits⟩
  rcases plain with notDollar | none_
  · exact notDollar dollar
  · exact digits none_

/-- Wherever no digit follows, a text becomes another one. -/
def Fills (scope : Scope) (before after : List Char) : Prop :=
  ∀ rest : List Char, rest.takeWhile Char.isDigit = [] →
    scope.fillSlots (before ++ rest) = after ++ scope.fillSlots rest

theorem Fills.cons {before after : List Char} {c : Char} (plain : c ≠ '$')
    (fills : scope.Fills before after) : scope.Fills (c :: before) (c :: after) := by
  intro rest ends
  rw [List.cons_append, fillSlots_cons (.inl plain), fills rest ends, List.cons_append]

/-- Text without a dollar sign stays. -/
theorem Fills.plain {cs : List Char} (plain : ∀ c ∈ cs, c ≠ '$') : scope.Fills cs cs := by
  induction cs with
  | nil => exact fun _ _ => rfl
  | cons c cs ih =>
      have tail := ih fun d member => plain d (List.mem_cons_of_mem _ member)
      exact tail.cons (plain c (List.mem_cons_self ..))

/-- Text without a digit stays. -/
theorem Fills.of_no_digit {cs : List Char} (plain : ∀ c ∈ cs, c.isDigit = false) :
    scope.Fills cs cs := by
  intro rest ends
  induction cs with
  | nil => rfl
  | cons c cs ih =>
      have tail := ih fun d member => plain d (List.mem_cons_of_mem _ member)
      have noDigit : (cs ++ rest).takeWhile Char.isDigit = [] := by
        cases cs with
        | nil => exact ends
        | cons d ds => simp [plain d (by simp)]
      rw [List.cons_append, fillSlots_cons (.inr noDigit), tail, List.cons_append]

/-- Two texts side by side, if the second one begins with a character that is no
digit. -/
theorem Fills.append {before after cs ds : List Char} {c : Char} (notDigit : c.isDigit = false)
    (first : scope.Fills before after) (later : scope.Fills (c :: cs) ds) :
    scope.Fills (before ++ c :: cs) (after ++ ds) := by
  intro rest ends
  have starts : (c :: cs ++ rest).takeWhile Char.isDigit = [] := by simp [notDigit]
  rw [List.append_assoc, first _ starts, later rest ends, List.append_assoc]

/-- A slot is replaced by its name. -/
theorem fills_slotName (index : Nat) : scope.Fills (Tree.slotName index) (scope.nameOf index) := by
  intro rest ends
  have digits := Number.Decimal.isDigit_toDigits index
  have taken : (Nat.toDigits 10 index ++ rest).takeWhile Char.isDigit = Nat.toDigits 10 index := by
    rw [List.takeWhile_append_of_pos digits, ends, List.append_nil]
  have dropped : (Nat.toDigits 10 index ++ rest).dropWhile Char.isDigit = rest := by
    have whole := List.takeWhile_append_dropWhile (p := Char.isDigit) (l := rest)
    rw [ends, List.nil_append] at whole
    rw [List.dropWhile_append_of_pos digits, whole]
  rw [Tree.slotName, List.cons_append, fillSlots]
  simp only [taken, dropped, Nat.toDigits_ne_nil, Number.Decimal.ofDigits_toDigits, ne_eq,
    not_false_eq_true, and_self, if_true]

/-- No dollar sign is written for a finite double. -/
theorem fills_display {value : Float} (finite : value.isFinite = true) :
    scope.Fills (Number.display value).toList (Number.display value).toList := by
  obtain ⟨whole, fraction, digits, written, -⟩ := Number.toList_display finite
  have plain : ∀ c : Char, c.isDigit = true → c ≠ '$' := by
    rintro c digit rfl
    exact absurd digit (by decide)
  have unsigned : ∀ c ∈ Number.numeral whole fraction, c ≠ '$' := by
    intro c member
    unfold Number.numeral at member
    split at member
    · exact plain c (digits.whole c member)
    · rcases List.mem_append.mp member with before | after
      · exact plain c (digits.whole c before)
      · rcases List.mem_cons.mp after with rfl | behind
        · decide
        · exact plain c (digits.fraction c behind)
  rw [written]
  cases Number.Binary64.negative value with
  | true => exact (Fills.plain unsigned).cons (by decide)
  | false => exact .plain unsigned

theorem fills_renderAllWith {ts : List Tree}
    (each : ∀ t ∈ ts, scope.Fills (t.renderWith Tree.slotName) (t.renderWith scope.nameOf)) :
    scope.Fills (Tree.renderAllWith Tree.slotName ts) (Tree.renderAllWith scope.nameOf ts) := by
  induction ts with
  | nil => exact .plain (by simp [Tree.renderAllWith])
  | cons t ts ih =>
      have first := each t (List.mem_cons_self ..)
      have later := ih fun u member => each u (List.mem_cons_of_mem _ member)
      cases ts with
      | nil => exact first
      | cons u us => exact first.append (by decide) ((later.cons (by decide)).cons (by decide))

theorem fills_renderWith (lawful : scope.registry.Lawful) {t : Tree} (within : t.Over scope) :
    scope.Fills (t.renderWith Tree.slotName) (t.renderWith scope.nameOf) := by
  have closing : scope.Fills [')'] [')'] := .plain (by simp)
  induction within with
  | constant finite => exact fills_display finite
  | slot _ => exact fills_slotName _
  | @apply o lhs rhs found _ _ left right =>
      obtain ⟨-, -, valid⟩ := lawful.symbol_of_operator? found
      have symbol : scope.Fills o.symbol.toList o.symbol.toList := by
        -- the symbol may contain dollar signs, but a space comes after it
        refine .of_no_digit fun c member => ?_
        exact (not_of_isOperatorChar ((isOperatorSymbol_iff.mp valid).2 c member)).1
      have opened := left.cons (c := '(') (by decide)
      have before := opened.append (by decide) (symbol.cons (c := ' ') (by decide))
      have whole := before.append (by decide) (right.cons (c := ' ') (by decide))
      exact whole.append (by decide) closing
  | @call r arguments found _ _ _ each =>
      obtain ⟨-, valid, -⟩ := lawful.name_of_routine? found
      have name : scope.Fills r.name.toList r.name.toList := by
        refine .plain ?_
        rintro c member rfl
        exact absurd ((isName_iff.mp valid).2 _ member) (by decide)
      have opened := (fills_renderAllWith each).cons (c := '(') (by decide)
      exact (name.append (by decide) opened).append (by decide) closing

/-- The written form with slots becomes the one with names. -/
theorem fillSlots_render (lawful : scope.registry.Lawful) {t : Tree} (within : t.Over scope) :
    scope.fillSlots t.render.toList = t.renderWith scope.nameOf := by
  have whole := fills_renderWith lawful within [] rfl
  rw [List.append_nil, fillSlots, List.append_nil] at whole
  rw [Tree.render, String.toList_ofList, whole]

end Scope

end Formula
