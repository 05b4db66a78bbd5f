/-
# Formula.Proofs.Registry.Made — what holds of every registry that can be made

A registry starts empty or with the standard definitions, and changes when a
definition is added or when it keeps its token pattern. Whatever was done with
it, all its symbols and names are valid ones, all its routines take arguments,
and the pattern it reads texts with is that of the operators it has now, also
when it was kept before (`Made.lawful`).
-/
import Formula.Registry.Standard

namespace Formula

set_option autoImplicit false

/-- What can be defined: a routine takes at least one argument. -/
def Definition.Proper : Definition → Prop
  | .routine f => 0 < f.arity
  | _ => True

namespace Registry

/-- The registries that can be made. -/
inductive Made : Registry → Prop where
  | empty : Made empty
  | standard : Made standard
  | add {r s : Registry} {d : Definition} : Made r → d.Proper → r.add d = .ok s → Made s
  | keepPattern {r : Registry} : Made r → Made r.keepPattern

structure Lawful (r : Registry) : Prop where
  symbols : ∀ o ∈ r.operators, isOperatorSymbol o.symbol = true
  names : ∀ f ∈ r.routines, isName f.name = true
  arities : ∀ f ∈ r.routines, 0 < f.arity
  /-- The pattern is not out of date. -/
  current : r.pattern = r.freshPattern

variable {r : Registry}

theorem lawful_empty : empty.Lawful where
  symbols := by simp [empty]
  names := by simp [empty]
  arities := by simp [empty]
  current := rfl

theorem lawful_standard : standard.Lawful where
  symbols := by decide +kernel
  names := by decide +kernel
  arities := by decide
  current := rfl

theorem Lawful.insertOperator (lawful : r.Lawful) {o : Operator}
    (valid : isOperatorSymbol o.symbol = true) : (r.insertOperator o).Lawful where
  symbols p member := by
    rcases List.mem_cons.mp member with rfl | earlier
    · exact valid
    · exact lawful.symbols p (List.mem_filter.mp earlier).1
  names := lawful.names
  arities := lawful.arities
  current := rfl

/-- Definitions that leave the operators alone leave the pattern current. -/
theorem Lawful.withNames (lawful : r.Lawful) {routines : List Routine}
    (constants : List (String × Float))
    (valid : ∀ f ∈ routines, isName f.name = true ∧ 0 < f.arity) :
    Lawful { r with routines, constants } where
  symbols := lawful.symbols
  names f member := (valid f member).1
  arities f member := (valid f member).2
  current := lawful.current

theorem Lawful.add (lawful : r.Lawful) {s : Registry} {d : Definition} (proper : d.Proper)
    (added : r.add d = .ok s) : s.Lawful := by
  have kept : ∀ keep : Routine → Bool, ∀ f ∈ r.routines.filter keep,
      isName f.name = true ∧ 0 < f.arity := by
    intro keep f member
    have before := (List.mem_filter.mp member).1
    exact ⟨lawful.names f before, lawful.arities f before⟩
  cases d with
  | operator o =>
      simp only [Registry.add] at added
      split at added
      · cases added
        exact lawful.insertOperator ‹_›
      · cases added
  | routine f =>
      simp only [Registry.add] at added
      split at added
      · rename_i valid
        cases added
        refine lawful.withNames _ fun g member => ?_
        rcases List.mem_cons.mp member with rfl | earlier
        · exact ⟨valid, proper⟩
        · exact kept _ g earlier
      · cases added
  | constant name value =>
      simp only [Registry.add] at added
      split at added
      · cases added
        exact lawful.withNames _ (kept _)
      · cases added

theorem Lawful.keepPattern (lawful : r.Lawful) : r.keepPattern.Lawful where
  symbols := lawful.symbols
  names := lawful.names
  arities := lawful.arities
  current := lawful.current

theorem Made.lawful (made : r.Made) : r.Lawful := by
  induction made with
  | empty => exact lawful_empty
  | standard => exact lawful_standard
  | add _ proper added ih => exact ih.add proper added
  | keepPattern _ ih => exact ih.keepPattern

/-! ## What lookups find -/

theorem Lawful.symbol_of_operator? (lawful : r.Lawful) {symbol : String} {o : Operator}
    (found : r.operator? symbol = some o) :
    o ∈ r.operators ∧ o.symbol = symbol ∧ isOperatorSymbol symbol = true := by
  have member := List.mem_of_find?_eq_some found
  have same : o.symbol = symbol := by simpa using List.find?_some found
  exact ⟨member, same, same ▸ lawful.symbols o member⟩

theorem Lawful.name_of_routine? (lawful : r.Lawful) {name : String} {f : Routine}
    (found : r.routine? name = some f) :
    f.name = name ∧ isName name = true ∧ 0 < f.arity := by
  have member := List.mem_of_find?_eq_some found
  have same : f.name = name := by simpa using List.find?_some found
  exact ⟨same, same ▸ lawful.names f member, lawful.arities f member⟩

end Registry

end Formula
