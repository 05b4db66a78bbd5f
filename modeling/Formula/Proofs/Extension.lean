/-
# Formula.Proofs.Extension — a registry with one more definition

A source can only refer to what occurs in it: to an operator by its symbol, to a routine or
a constant by its name as a whole run of letters. A definition whose key does not occur
there (`Key.Absent`) plays no part, nor does one under the name of a declared variable,
which hides it. Whether it is new or replaces another one, and whatever it does to the
order in which symbols are tried, the scopes before and after the addition are alike about
the source (`alike_insert`).

So the source is read as before, down to the text that a fault skips over, and compiles to
the same formula or fails with the same fault (`extension_conservative`). It may be any
number of such definitions (`lex_of_extension`).
-/
import Formula.Proofs.Compiling
import Formula.Proofs.Lexer.Rescoping
import Formula.Proofs.Registry.Ledger

namespace Formula

set_option autoImplicit false

/-! ## What a source cannot refer to -/

/-- A key plays no part in a source with some declared variables: a symbol that stands
nowhere in it, or a name that is a variable's or is no run of letters in it. -/
def Key.Absent (names : List String) (source : List Char) : Key → Prop
  | .symbol text => ¬ text.toList <:+: source
  | .name text => text ∈ names ∨ ¬ IsRun source text.toList

instance (names : List String) (source : List Char) (key : Key) :
    Decidable (key.Absent names source) :=
  match key with
  | .symbol text => inferInstanceAs (Decidable (¬ text.toList <:+: source))
  | .name text => inferInstanceAs (Decidable (text ∈ names ∨ ¬ IsRun source text.toList))

namespace Registry

variable {r : Registry} {d : Definition}

theorem operator?_insert_of_ne {symbol : String} (other : .symbol symbol ≠ d.key) :
    (r.insert d).operator? symbol = r.operator? symbol := by
  have found := found?_insert r d (.symbol symbol)
  rw [if_neg other] at found
  exact Option.map_injective (fun _ _ => Definition.operator.inj) found

/-- Routines and constants share one set of names, so both lookups matter. -/
theorem names_insert_of_ne {name : String} (other : .name name ≠ d.key) :
    (r.insert d).routine? name = r.routine? name ∧
      (r.insert d).constant? name = r.constant? name := by
  cases d with
  | operator o => exact ⟨rfl, rfl⟩
  | routine f =>
      have differs : name ≠ f.name := fun same => other (congrArg Key.name same)
      refine ⟨(routine?_insertRoutine r f name).trans (if_neg differs), ?_⟩
      exact (constant?_insertRoutine r f name).trans (if_neg differs)
  | constant taken value =>
      have differs : name ≠ taken := fun same => other (congrArg Key.name same)
      refine ⟨(routine?_insertConstant r taken value name).trans (if_neg differs), ?_⟩
      exact (constant?_insertConstant r taken value name).trans (if_neg differs)

end Registry

/-! ## Scopes before and after -/

namespace Lexer

variable {r : Registry} {d : Definition} {names : List String} {source : List Char}

/-- What a run of letters means does not depend on a definition that plays no part. -/
theorem resolve?_insert (absent : d.key.Absent names source) {run : List Char}
    (isRun : IsRun source run) :
    resolve? ⟨names, r.insert d⟩ (String.ofList run) = resolve? ⟨names, r⟩ (String.ofList run) := by
  unfold resolve?
  cases found : names.findIdx? (· == String.ofList run) with
  | some index => rfl
  | none =>
      have other : .name (String.ofList run) ≠ d.key := by
        intro same
        rw [← same] at absent
        rcases absent with declared | noRun
        · exact findIdx?_name_eq_none_iff.mp found declared
        · rw [String.toList_ofList] at noRun
          exact noRun isRun
      obtain ⟨routine, constant⟩ := Registry.names_insert_of_ne (r := r) other
      simp only [routine, constant]

theorem alike_insert (r : Registry) (absent : d.key.Absent names source) :
    Alike id source ⟨names, r⟩ ⟨names, r.insert d⟩ where
  symbols s inside := by
    refine Registry.operator?_insert_of_ne fun same => ?_
    rw [← same] at absent
    simp only [Key.Absent, String.toList_ofList] at absent
    exact absent inside
  names run isRun := by
    rw [Relabelling.meaning_ofSlot_id, Option.map_id, resolve?_insert absent isRun]
    rfl

end Lexer

/-! ## The same tokens and formulas -/

section Extension

variable {r s : Registry} {names : List String} {source : List Char}

/-- A source is read as before a definition that plays no part in it was added. -/
theorem lex_of_added (made : r.Made) {d : Definition} (proper : d.Proper)
    (added : r.add d = .ok s) (absent : d.key.Absent names source) :
    lex ⟨names, s⟩ source = lex ⟨names, r⟩ source := by
  have lawful : s.Lawful := made.lawful.add proper added
  rw [Registry.add_eq] at added
  split at added
  · cases added
    have same := lex_of_alike (Lexer.alike_insert r absent) made.lawful lawful
    rwa [Relabelling.token_ofSlot_id, List.map_id] at same
  · cases added

/-- The same after any number of such definitions. -/
theorem lex_of_extension (made : r.Made) {ds : List Definition} (proper : ∀ d ∈ ds, d.Proper)
    (extended : ds.foldlM Registry.add r = .ok s)
    (absent : ∀ d ∈ ds, d.key.Absent names source) :
    lex ⟨names, s⟩ source = lex ⟨names, r⟩ source := by
  induction ds generalizing r with
  | nil =>
      cases extended
      rfl
  | cons d ds ih =>
      obtain ⟨here, later⟩ := List.forall_mem_cons.mp absent
      obtain ⟨properHere, properLater⟩ := List.forall_mem_cons.mp proper
      rw [List.foldlM_cons] at extended
      cases added : r.add d with
      | error fault =>
          rw [added] at extended
          cases extended
      | ok middle =>
          rw [added] at extended
          rw [ih (.add made properHere added) properLater extended later]
          exact lex_of_added made properHere added here

theorem treeOf_of_lex_eq {scope other : Scope} (same : lex other source = lex scope source) :
    treeOf other source = treeOf scope source := by
  rw [treeOf, treeOf, tokenize, tokenize, same]

/-- All that compiling takes from a registry is the tree of the source. -/
theorem Compiled.compile_congr {source : String} {declaration : Declaration}
    (same : treeOf ⟨declaration.toNames, s⟩ source.toList =
      treeOf ⟨declaration.toNames, r⟩ source.toList) :
    compile source declaration s = compile source declaration r := by
  cases validated : Variables.validate declaration.toNames with
  | error fault => rw [compile_of_invalid validated, compile_of_invalid validated]
  | ok names =>
      obtain ⟨rfl, -⟩ := Variables.validate_eq_ok validated
      simp only [compile, validated, same, bind, Except.bind]

end Extension

/-- To add a definition changes nothing for the sources that do not refer to it. It may be
an operator whose symbol stands nowhere in the source, or a routine or constant whose name
is a variable's or is no run of letters in the source, and it may replace another
definition: the same tokens are read up to the same fault, if there is one, and the same
formula is compiled, or the same fault is found. -/
theorem extension_conservative {r s : Registry} (made : r.Made) {d : Definition}
    (proper : d.Proper) (added : r.add d = .ok s) (declaration : Declaration) (source : String)
    (absent : d.key.Absent declaration.toNames source.toList) :
    lex ⟨declaration.toNames, s⟩ source.toList = lex ⟨declaration.toNames, r⟩ source.toList ∧
      tokenize ⟨declaration.toNames, s⟩ source.toList =
        tokenize ⟨declaration.toNames, r⟩ source.toList ∧
      Compiled.compile source declaration s = Compiled.compile source declaration r := by
  have same := lex_of_added made proper added absent
  exact ⟨same, by rw [tokenize, tokenize, same], Compiled.compile_congr (treeOf_of_lex_eq same)⟩

/-- A symbol that starts with a minus and goes on with an arrow is added, and a constant in
place of the routine `max`, where a minus and the arrow stand apart and `max` is a variable:
the arrow is still what the source cannot be read for. -/
theorem extension_conservative_arrow :
    let arrow : Operator := ⟨"-→", 1, .right, fun a _ => a, false⟩
    let source := "max -3 → 2"
    let scope (r : Registry) : Scope := ⟨["max"], r⟩
    ∃ r s, Registry.standard.add (.operator arrow) = .ok r ∧ r.add (.constant "max" 0.0) = .ok s ∧
      (Registry.standard.routine? "max").isSome = true ∧ s.routine? "max" = none ∧
      (lex (scope s) source.toList).tokens.map Token.span = [⟨0, 3⟩, ⟨4, 5⟩, ⟨5, 6⟩] ∧
      (lex (scope s) source.toList).fault = some (.undefinedSymbol (some ("→", ⟨7, 10⟩))) ∧
      lex (scope s) source.toList = lex (scope .standard) source.toList ∧
      Compiled.compile source (.names ["max"]) s =
        Compiled.compile source (.names ["max"]) .standard := by
  intro arrow source scope
  let r := Registry.standard.insertOperator arrow
  let s := r.insertConstant "max" 0.0
  have isSymbol : isOperatorSymbol arrow.symbol = true := by decide +kernel
  have isName' : isName "max" = true := by decide +kernel
  have added : Registry.standard.add (.operator arrow) = .ok r := if_pos isSymbol
  have replaced : r.add (.constant "max" 0.0) = .ok s := by rw [Registry.add, if_pos isName']
  have made : r.Made := .add (d := .operator arrow) .standard trivial added
  have apart : (Definition.operator arrow).key.Absent ["max"] source.toList := by decide +kernel
  have hidden : (Definition.constant "max" 0.0).key.Absent ["max"] source.toList :=
    .inl (List.mem_singleton_self _)
  obtain ⟨first, -, compiled⟩ := extension_conservative (d := .operator arrow) .standard trivial
    added (.names ["max"]) source apart
  obtain ⟨second, -, compiled'⟩ := extension_conservative (d := .constant "max" 0.0) made trivial
    replaced (.names ["max"]) source hidden
  have same : lex (scope s) source.toList = lex (scope .standard) source.toList :=
    second.trans first
  have spans : (lex (scope .standard) source.toList).tokens.map Token.span =
      [⟨0, 3⟩, ⟨4, 5⟩, ⟨5, 6⟩] := by decide +kernel
  have stops : (lex (scope .standard) source.toList).fault =
      some (.undefinedSymbol (some ("→", ⟨7, 10⟩))) := by decide +kernel
  refine ⟨r, s, added, replaced, by decide +kernel, by decide +kernel, ?_, ?_, same,
    compiled'.trans compiled⟩
  · rw [same, spans]
  · rw [same, stops]

end Formula
