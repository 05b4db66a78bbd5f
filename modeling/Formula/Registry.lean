/-
# Formula.Registry — the definitions a formula is compiled against

A registry holds operators by their symbols, and routines and constants by
their names. A later definition replaces an earlier one of the same symbol or
name; routines and constants share one set of names, so defining one removes
the other.

The registry may keep the token pattern of its operators, so that it is made
once and not for every text. A new operator makes it out of date and drops it.
-/
import Formula.Fault
import Formula.Lexer.Pattern
import Formula.Symbol

namespace Formula

set_option autoImplicit false

/-- The operators, routines and constants in force, newest first. -/
structure Registry where
  operators : List Operator
  routines : List Routine
  constants : List (String × Float)
  /-- The pattern of the operators, once it was asked for. -/
  kept : Option Pattern

/-- Something to add to a registry. -/
inductive Definition where
  | operator (o : Operator)
  | routine (r : Routine)
  | constant (name : String) (value : Float)

namespace Registry

/-- No definitions. -/
def empty : Registry := ⟨[], [], [], none⟩

/-! ## Lookup -/

def operator? (r : Registry) (symbol : String) : Option Operator :=
  r.operators.find? (·.symbol == symbol)

def routine? (r : Registry) (name : String) : Option Routine :=
  r.routines.find? (·.name == name)

def constant? (r : Registry) (name : String) : Option Float := r.constants.lookup name

/-! ## Definition -/

/-- Put an operator in place of any with the same symbol. -/
def insertOperator (r : Registry) (o : Operator) : Registry :=
  { r with operators := o :: r.operators.filter (·.symbol != o.symbol), kept := none }

/-- Put a routine in place of any routine or constant of the same name. -/
def insertRoutine (r : Registry) (f : Routine) : Registry :=
  { r with
    routines := f :: r.routines.filter (·.name != f.name)
    constants := r.constants.filter (·.1 != f.name) }

/-- Put a constant in place of any constant or routine of the same name. -/
def insertConstant (r : Registry) (name : String) (value : Float) : Registry :=
  { r with
    routines := r.routines.filter (·.name != name)
    constants := (name, value) :: r.constants.filter (·.1 != name) }

/-- Add a definition, unless its symbol or name is not a valid one. -/
def add (r : Registry) : Definition → Except Fault Registry
  | .operator o =>
    if isOperatorSymbol o.symbol then .ok (r.insertOperator o) else .error (.badName o.symbol)
  | .routine f => if isName f.name then .ok (r.insertRoutine f) else .error (.badName f.name)
  | .constant name value =>
    if isName name then .ok (r.insertConstant name value) else .error (.badName name)

/-! ## The token pattern -/

/-- The pattern of the operators in force. -/
def freshPattern (r : Registry) : Pattern := .ofSymbols (r.operators.map (·.symbol))

/-- The kept pattern, or a fresh one. -/
def pattern (r : Registry) : Pattern := r.kept.getD r.freshPattern

/-- Keep the pattern for the next text. -/
def keepPattern (r : Registry) : Registry := { r with kept := some r.pattern }

/-! ## Lookup after a definition -/

/-- Where the entries of one name were taken out, none of that name is found, and the
others are found as before. -/
theorem find?_filter_ne {α : Type} (key : α → String) (entries : List α) (taken name : String) :
    (entries.filter (key · != taken)).find? (key · == name) =
      if name = taken then none else entries.find? (key · == name) := by
  rw [List.find?_filter]
  split
  · rename_i same
    simp [same]
  · rename_i differs
    congr 1
    funext entry
    by_cases hit : key entry = name <;> simp [hit, differs]

theorem operator?_insertOperator (r : Registry) (o : Operator) (symbol : String) :
    (r.insertOperator o).operator? symbol =
      if symbol = o.symbol then some o else r.operator? symbol := by
  by_cases same : symbol = o.symbol
  · simp [operator?, insertOperator, same]
  · have differs : (o.symbol == symbol) = false := by
      simpa using fun h : o.symbol = symbol => same h.symm
    simp only [operator?, insertOperator, List.find?_cons, differs, find?_filter_ne, same, if_false]

theorem routine?_insertRoutine (r : Registry) (f : Routine) (name : String) :
    (r.insertRoutine f).routine? name = if name = f.name then some f else r.routine? name := by
  by_cases same : name = f.name
  · simp [routine?, insertRoutine, same]
  · have differs : (f.name == name) = false := by
      simpa using fun h : f.name = name => same h.symm
    simp only [routine?, insertRoutine, List.find?_cons, differs, find?_filter_ne, same, if_false]

theorem routine?_insertConstant (r : Registry) (taken : String) (value : Float) (name : String) :
    (r.insertConstant taken value).routine? name =
      if name = taken then none else r.routine? name :=
  find?_filter_ne Routine.name r.routines taken name

theorem constant?_eq (r : Registry) (name : String) :
    r.constant? name = (r.constants.find? (·.1 == name)).map Prod.snd := by
  unfold constant?
  induction r.constants with
  | nil => rfl
  | cons entry entries ih =>
      obtain ⟨other, value⟩ := entry
      rw [List.lookup_cons, List.find?_cons, ih, Bool.beq_comm (a := name)]
      cases other == name <;> rfl

theorem constant?_insertConstant (r : Registry) (taken : String) (value : Float) (name : String) :
    (r.insertConstant taken value).constant? name =
      if name = taken then some value else r.constant? name := by
  by_cases same : name = taken
  · simp [constant?, insertConstant, same]
  · have differs : (taken == name) = false := by
      simpa using fun h : taken = name => same h.symm
    simp only [constant?_eq, insertConstant, List.find?_cons, differs,
      find?_filter_ne Prod.fst, same, if_false]

theorem constant?_insertRoutine (r : Registry) (f : Routine) (name : String) :
    (r.insertRoutine f).constant? name = if name = f.name then none else r.constant? name := by
  simp only [constant?_eq, insertRoutine, find?_filter_ne Prod.fst]
  split <;> rfl

end Registry

end Formula
