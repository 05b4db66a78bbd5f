/-
# Formula.Proofs.Registry.Ledger — what a registry holds

Whatever is defined is found under a `Key`: operators under their symbols, routines
and constants under one set of names. To add a definition changes what is found under
its own key and nothing else (`found?_insert`), and the one that cannot be added is
the one whose key is not valid (`add_eq`).

A registry is `Tidy` when no two of its definitions share a key, all of them stand
under valid ones, and the pattern it keeps, if it keeps one, is that of its operators.
Then what is found is all there is to it: registries that find the same definitions
read every text alike (`lex_eq_of_agrees`), in whatever order they list them.
-/
import Formula.Lexer
import Formula.Proofs.Lexer.Reading
import Mathlib.Data.List.Nodup

namespace Formula

set_option autoImplicit false

/-- What a definition is found under. -/
inductive Key where
  | symbol (text : String)
  | name (text : String)
deriving DecidableEq

namespace Key

def text : Key → String
  | .symbol text => text
  | .name text => text

def valid : Key → Bool
  | .symbol text => isOperatorSymbol text
  | .name text => isName text

end Key

def Definition.key : Definition → Key
  | .operator o => .symbol o.symbol
  | .routine f => .name f.name
  | .constant name _ => .name name

namespace Registry

/-- The definition in force under a key. -/
def found? (r : Registry) : Key → Option Definition
  | .symbol text => (r.operator? text).map .operator
  | .name text => ((r.routine? text).map .routine).or ((r.constant? text).map (.constant text))

/-- Put a definition in place of any under the same key. -/
def insert (r : Registry) : Definition → Registry
  | .operator o => r.insertOperator o
  | .routine f => r.insertRoutine f
  | .constant name value => r.insertConstant name value

/-- A definition is added if its key is valid, and refused otherwise. -/
theorem add_eq (r : Registry) (d : Definition) :
    r.add d = if d.key.valid then .ok (r.insert d) else .error (.badName d.key.text) := by
  cases d <;> rfl

/-- What is added is found under its key; under other keys nothing changes. -/
theorem found?_insert (r : Registry) (d : Definition) (key : Key) :
    (r.insert d).found? key = if key = d.key then some d else r.found? key := by
  cases d with
  | operator o =>
      cases key with
      | symbol text =>
          simp only [found?, insert, operator?_insertOperator, Definition.key, Key.symbol.injEq]
          split <;> rfl
      | name text =>
          rw [if_neg (by simp [Definition.key])]
          rfl
  | routine f =>
      cases key with
      | symbol text =>
          rw [if_neg (by simp [Definition.key])]
          rfl
      | name text =>
          simp only [found?, insert, routine?_insertRoutine, constant?_insertRoutine,
            Definition.key, Key.name.injEq]
          split <;> rfl
  | constant name value =>
      cases key with
      | symbol text =>
          rw [if_neg (by simp [Definition.key])]
          rfl
      | name text =>
          simp only [found?, insert, routine?_insertConstant, constant?_insertConstant,
            Definition.key, Key.name.injEq]
          split
          · rename_i same
            rw [same]
            rfl
          · rfl

/-! ## Tidy registries -/

structure Tidy (r : Registry) : Prop where
  symbols : ∀ o ∈ r.operators, isOperatorSymbol o.symbol = true
  names : ∀ f ∈ r.routines, isName f.name = true
  distinctSymbols : (r.operators.map Operator.symbol).Nodup
  /-- Routines and constants share one set of names. -/
  distinctNames : (r.routines.map Routine.name ++ r.constants.map Prod.fst).Nodup
  current : ∀ p, r.kept = some p → p = r.freshPattern

theorem tidy_empty : empty.Tidy where
  symbols := by simp [empty]
  names := by simp [empty]
  distinctSymbols := by simp [empty]
  distinctNames := by simp [empty]
  current _ kept := by cases kept

theorem tidy_standard : standard.Tidy where
  symbols := lawful_standard.symbols
  names := lawful_standard.names
  distinctSymbols := by decide +kernel
  distinctNames := by decide +kernel
  current _ kept := by cases kept

theorem not_mem_map_filter {α : Type} (key : α → String) (entries : List α) (taken : String) :
    taken ∉ (entries.filter (key · != taken)).map key := by
  intro again
  obtain ⟨entry, member, same⟩ := List.mem_map.mp again
  have differs := (List.mem_filter.mp member).2
  simp [same] at differs

variable {r s : Registry}

/-- A name that is taken out of both the routines and the constants is free. -/
theorem Tidy.nodup_names (tidy : r.Tidy) (taken : String) :
    (taken :: ((r.routines.filter (·.name != taken)).map Routine.name ++
      (r.constants.filter (·.1 != taken)).map Prod.fst)).Nodup := by
  have others := (List.filter_sublist (p := (·.name != taken)) (l := r.routines)).map Routine.name
  have others' := (List.filter_sublist (p := (·.1 != taken)) (l := r.constants)).map Prod.fst
  refine List.nodup_cons.mpr ⟨fun again => ?_, tidy.distinctNames.sublist (others.append others')⟩
  rcases List.mem_append.mp again with isRoutine | isConstant
  · exact not_mem_map_filter Routine.name r.routines taken isRoutine
  · exact not_mem_map_filter Prod.fst r.constants taken isConstant

theorem Tidy.insert (tidy : r.Tidy) {d : Definition} (valid : d.key.valid = true) :
    (r.insert d).Tidy := by
  cases d with
  | operator o =>
      refine ⟨fun p member => ?_, tidy.names, ?_, tidy.distinctNames, fun _ kept => by cases kept⟩
      · rcases List.mem_cons.mp member with rfl | earlier
        · exact valid
        · exact tidy.symbols p (List.mem_filter.mp earlier).1
      · exact List.nodup_cons.mpr ⟨not_mem_map_filter Operator.symbol r.operators o.symbol,
          tidy.distinctSymbols.sublist (List.filter_sublist.map _)⟩
  | routine f =>
      refine ⟨tidy.symbols, fun g member => ?_, tidy.distinctSymbols, tidy.nodup_names f.name,
        tidy.current⟩
      rcases List.mem_cons.mp member with rfl | earlier
      · exact valid
      · exact tidy.names g (List.mem_filter.mp earlier).1
  | constant name value =>
      refine ⟨tidy.symbols, fun g member => tidy.names g (List.mem_filter.mp member).1,
        tidy.distinctSymbols, ?_, tidy.current⟩
      exact List.perm_middle.nodup_iff.mpr (tidy.nodup_names name)

/-- The pattern that texts are read with is always that of the operators. -/
theorem Tidy.pattern_eq (tidy : r.Tidy) : r.pattern = r.freshPattern := by
  unfold pattern
  cases kept : r.kept with
  | none => rfl
  | some p => exact tidy.current p kept

theorem Tidy.keepPattern (tidy : r.Tidy) : r.keepPattern.Tidy := by
  refine { tidy with current := fun p kept => ?_ }
  cases kept
  exact tidy.pattern_eq

/-! ## What is found in a tidy registry -/

theorem find?_of_nodup {α : Type} {key : α → String} {entries : List α}
    (distinct : (entries.map key).Nodup) {entry : α} (member : entry ∈ entries) :
    entries.find? (key · == key entry) = some entry := by
  cases found : entries.find? (key · == key entry) with
  | none => simpa using List.find?_eq_none.mp found entry member
  | some other =>
      have same : key other = key entry := by simpa using List.find?_some found
      rw [List.inj_on_of_nodup_map distinct (List.mem_of_find?_eq_some found) member same]

theorem Tidy.operator?_of_mem (tidy : r.Tidy) {o : Operator} (member : o ∈ r.operators) :
    r.operator? o.symbol = some o :=
  find?_of_nodup tidy.distinctSymbols member

theorem Tidy.routine?_of_mem (tidy : r.Tidy) {f : Routine} (member : f ∈ r.routines) :
    r.routine? f.name = some f :=
  find?_of_nodup (List.nodup_append.mp tidy.distinctNames).1 member

/-- No name is one of a routine and of a constant. -/
theorem Tidy.exclusive (tidy : r.Tidy) (name : String) :
    r.routine? name = none ∨ r.constant? name = none := by
  by_contra both
  rw [not_or, ← ne_eq, ← ne_eq, Option.ne_none_iff_exists', Option.ne_none_iff_exists'] at both
  obtain ⟨⟨f, isRoutine⟩, value, isConstant⟩ := both
  rw [constant?_eq] at isConstant
  obtain ⟨entry, found, -⟩ := Option.map_eq_some_iff.mp isConstant
  have routineName : f.name = name := by simpa using List.find?_some isRoutine
  have constantName : entry.1 = name := by simpa using List.find?_some found
  exact (List.nodup_append.mp tidy.distinctNames).2.2 f.name
    (List.mem_map_of_mem (List.mem_of_find?_eq_some isRoutine)) entry.1
    (List.mem_map_of_mem (List.mem_of_find?_eq_some found)) (routineName.trans constantName.symm)

theorem operator?_eq_some_iff {symbol : String} {o : Operator} :
    r.operator? symbol = some o ↔ r.found? (.symbol symbol) = some (.operator o) := by
  simp [found?]

theorem routine?_eq_some_iff {name : String} {f : Routine} :
    r.routine? name = some f ↔ r.found? (.name name) = some (.routine f) := by
  cases isRoutine : r.routine? name <;> simp [found?, isRoutine]

theorem Tidy.constant?_eq_some_iff (tidy : r.Tidy) {name : String} {value : Float} :
    r.constant? name = some value ↔ r.found? (.name name) = some (.constant name value) := by
  rcases tidy.exclusive name with none_ | none_ <;> simp [found?, none_]

/-- Symbols listed in any order, each once: those of the operators that are found. -/
def Lists (symbols : List String) (r : Registry) : Prop :=
  symbols.Nodup ∧ ∀ symbol, symbol ∈ symbols ↔ (r.operator? symbol).isSome = true

theorem Tidy.pattern_of_lists (tidy : r.Tidy) {symbols : List String} (lists : Lists symbols r) :
    r.pattern = .ofSymbols symbols := by
  rw [tidy.pattern_eq, freshPattern]
  refine Pattern.ofSymbols_perm ((List.perm_ext_iff_of_nodup tidy.distinctSymbols lists.1).mpr ?_)
  intro symbol
  rw [lists.2, operator?, List.find?_isSome]
  simp

theorem Tidy.lists (tidy : r.Tidy) : Lists (r.operators.map Operator.symbol) r := by
  refine ⟨tidy.distinctSymbols, fun symbol => ?_⟩
  rw [operator?, List.find?_isSome]
  simp

/-! ## Reading texts -/

/-- Two registries find the same definitions. -/
structure Agrees (r s : Registry) : Prop where
  operators : ∀ symbol, r.operator? symbol = s.operator? symbol
  routines : ∀ name, r.routine? name = s.routine? name
  constants : ∀ name, r.constant? name = s.constant? name

theorem read_eq_of_agrees (agrees : Agrees r s) (names : List String) (previous : Option Category)
    (hit : Hit) (start : Nat) :
    Lexer.read ⟨names, r⟩ previous hit start = Lexer.read ⟨names, s⟩ previous hit start := by
  have resolves : ∀ name, Lexer.resolve? ⟨names, r⟩ name = Lexer.resolve? ⟨names, s⟩ name :=
    fun name => by simp only [Lexer.resolve?, agrees.routines, agrees.constants]
  have marks : ∀ text, Lexer.mark? ⟨names, r⟩ text = Lexer.mark? ⟨names, s⟩ text := fun text => by
    unfold Lexer.mark?
    split <;> simp only [agrees.operators]
  simp only [Lexer.read, Lexer.number, resolves, marks, agrees.operators]

/-- Texts are scanned alike where the same pieces mean the same. -/
theorem scan_eq_of_read {scope other : Scope} {pattern : Pattern}
    (reads : ∀ previous hit start,
      Lexer.read scope previous hit start = Lexer.read other previous hit start)
    (cs : List Char) (offset : Nat) (previous : Option Category) :
    Lexer.scan scope pattern cs offset previous = Lexer.scan other pattern cs offset previous := by
  fun_induction Lexer.scan scope pattern cs offset previous with
  | case1 cs offset previous nothing => exact (Lexer.scan_of_none nothing).symm
  | case2 cs offset previous hit found fault strays => rw [Lexer.scan_of_some found, strays]
  | case3 cs offset previous hit found blank start fault failed =>
      exact (Lexer.scan_of_error found blank ((reads ..).symm.trans failed)).symm
  | case4 cs offset previous hit found blank start first made later ih =>
      rw [Lexer.scan_of_read found blank ((reads ..).symm.trans made),
        Lexer.lastCategory_of_ne_nil (Lexer.read_ne_nil made)]
      exact congrArg (fun rest : Lexed => (⟨first ++ rest.tokens, rest.fault⟩ : Lexed)) ih

theorem lex_eq_of_agrees (tidy : r.Tidy) (tidy' : s.Tidy) (agrees : Agrees r s)
    (names : List String) (source : List Char) :
    lex ⟨names, r⟩ source = lex ⟨names, s⟩ source := by
  have lists : Lists (s.operators.map Operator.symbol) r :=
    ⟨tidy'.lists.1, fun symbol => by rw [agrees.operators, tidy'.lists.2]⟩
  have pattern : r.pattern = s.pattern := by
    rw [tidy.pattern_of_lists lists, tidy'.pattern_of_lists tidy'.lists]
  rw [lex, lex, pattern]
  exact scan_eq_of_read (read_eq_of_agrees agrees names) source 0 none

end Registry

end Formula
