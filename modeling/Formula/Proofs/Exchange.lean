/-
# Formula.Proofs.Exchange — the order of declared variables does not matter

A variable is known by its place among the declared names. If the names are put in
another order, every token of a source keeps its meaning up to the places, so the source
compiles to the same tree up to the slots in it, or fails with the same fault; and with
the values put in the same order, the tree has the same value (`denote_tree`).

One more name at the end leaves the places of the others as they are. It changes nothing
unless the source has the name in it as a whole run of letters, and the value of its slot
is never read (`variables_exchangeable`).
-/
import Formula.Proofs.Lexer.Rescoping
import Formula.Proofs.Optimization
import Formula.Proofs.Safety
import Mathlib.Logic.Equiv.Defs

namespace Formula

set_option autoImplicit false

/-! ## Values of renamed trees -/

namespace Relabelling

variable {f : Relabelling} {slots slots' : List Float}

mutual

/-- A tree with other slots, that hold the values of the old ones, has the old value. -/
theorem denote_tree : ∀ t : Tree,
    (∀ index ∈ t.slots, slotValue slots' (f.slot index) = slotValue slots index) →
      (f.tree t).denote slots' = t.denote slots
  | .constant _, _ => rfl
  | .slot index, same => same index (List.mem_singleton_self index)
  | .apply o lhs rhs, same => by
      rw [Tree.slots, List.forall_mem_append] at same
      rw [tree, Tree.denote, Tree.denote, denote_tree lhs same.1, denote_tree rhs same.2]
  | .call r arguments, same => by
      rw [Tree.slots] at same
      rw [tree, Tree.denote, Tree.denote, denoteAll_trees arguments same]

theorem denoteAll_trees : ∀ ts : List Tree,
    (∀ index ∈ Tree.slotsOfAll ts, slotValue slots' (f.slot index) = slotValue slots index) →
      Tree.denoteAll slots' (f.trees ts) = Tree.denoteAll slots ts
  | [], _ => rfl
  | t :: ts, same => by
      rw [Tree.slotsOfAll, List.forall_mem_append] at same
      rw [trees, Tree.denoteAll, Tree.denoteAll, denote_tree t same.1, denoteAll_trees ts same.2]

end

end Relabelling

/-! ## Entries in another order -/

section Arranged

variable {n : Nat} (p : Equiv.Perm (Fin n))

/-- A list in which the entry `i` stands at the place `p i`. -/
def arranged {α : Type} (entries : Fin n → α) : List α := List.ofFn fun i => entries (p.symm i)

/-- Where a slot goes. -/
def slotUnder (index : Nat) : Nat := if within : index < n then p ⟨index, within⟩ else index

theorem slotUnder_val (i : Fin n) : slotUnder p i = p i := dif_pos i.isLt

theorem getElem?_arranged {α : Type} (entries : Fin n → α) (index : Nat) :
    (arranged p entries)[slotUnder p index]? = (List.ofFn entries)[index]? := by
  by_cases within : index < n
  · rw [slotUnder, dif_pos within, arranged]
    simp [within]
  · rw [slotUnder, dif_neg within, arranged]
    simp [within]

theorem slotValue_arranged (values : Fin n → Float) (index : Nat) :
    slotValue (arranged p values) (slotUnder p index) = slotValue (List.ofFn values) index := by
  rw [slotValue, slotValue, getElem?_arranged]

end Arranged

/-! ## Names in another order -/

namespace Lexer

variable {registry : Registry}

/-- What is no variable means what it means where none is declared. -/
theorem resolve?_of_absent {names : List String} {name : String} (absent : name ∉ names) :
    resolve? ⟨names, registry⟩ name = resolve? ⟨[], registry⟩ name := by
  simp only [resolve?, findIdx?_name_eq_none_iff.mpr absent]
  rfl

/-- What is no variable has a meaning without a slot. -/
theorem map_resolve?_nil (slot : Nat → Nat) (name : String) :
    (resolve? ⟨[], registry⟩ name).map (Relabelling.ofSlot slot).meaning =
      resolve? ⟨[], registry⟩ name := by
  simp only [resolve?, List.findIdx?_nil]
  cases registry.routine? name with
  | some r => rfl
  | none => cases registry.constant? name <;> rfl

/-- Each of some names that are all different means its place. -/
theorem resolve?_ofFn {n : Nat} {names : Fin n → String} (distinct : Function.Injective names)
    (i : Fin n) : resolve? ⟨List.ofFn names, registry⟩ (names i) = some (.slot i) := by
  have within : i.val < (List.ofFn names).length := by simp
  have nodup : (Scope.mk (List.ofFn names) registry).names.Nodup := List.nodup_ofFn.mpr distinct
  have means := resolve?_slot nodup within
  rwa [List.getElem_ofFn] at means

/-- A name means the same among names in another order, up to the slot. -/
theorem resolve?_arranged {n : Nat} {names : Fin n → String}
    (distinct : Function.Injective names) (p : Equiv.Perm (Fin n)) (name : String) :
    resolve? ⟨arranged p names, registry⟩ name =
      (resolve? ⟨List.ofFn names, registry⟩ name).map
        (Relabelling.ofSlot (slotUnder p)).meaning := by
  by_cases declared : ∃ i, names i = name
  · obtain ⟨i, rfl⟩ := declared
    have distinct' : Function.Injective fun j => names (p.symm j) :=
      distinct.comp p.symm.injective
    have moved : resolve? ⟨arranged p names, registry⟩ (names (p.symm (p i))) =
        some (.slot (p i)) := resolve?_ofFn distinct' (p i)
    rw [p.symm_apply_apply] at moved
    rw [resolve?_ofFn distinct, moved]
    exact congrArg (fun place => some (Meaning.slot place)) (slotUnder_val p i).symm
  · have absent : name ∉ List.ofFn names := by
      rw [List.mem_ofFn]
      exact declared
    have absent' : name ∉ arranged p names := by
      rw [arranged, List.mem_ofFn]
      rintro ⟨i, same⟩
      exact declared ⟨p.symm i, same⟩
    rw [resolve?_of_absent absent, resolve?_of_absent absent', map_resolve?_nil]

/-- One more name at the end changes the meaning of no other. -/
theorem resolve?_concat {names : List String} {extra name : String} (differs : extra ≠ name) :
    resolve? ⟨names ++ [extra], registry⟩ name = resolve? ⟨names, registry⟩ name := by
  have same : (names ++ [extra]).findIdx? (· == name) = names.findIdx? (· == name) := by
    rw [List.findIdx?_append]
    simp [List.findIdx?_cons, differs]
  simp only [resolve?, same]

theorem alike_arranged {n : Nat} {names : Fin n → String} (distinct : Function.Injective names)
    (p : Equiv.Perm (Fin n)) (source : List Char) :
    Alike (slotUnder p) source ⟨List.ofFn names, registry⟩ ⟨arranged p names, registry⟩ where
  symbols _ _ := rfl
  names _ _ := resolve?_arranged distinct p _

theorem alike_concat {names : List String} {extra : String} {source : List Char}
    (absent : ¬ IsRun source extra.toList) :
    Alike id source ⟨names, registry⟩ ⟨names ++ [extra], registry⟩ where
  symbols _ _ := rfl
  names run isRun := by
    have differs : extra ≠ String.ofList run := by
      rintro rfl
      rw [String.toList_ofList] at absent
      exact absent isRun
    rw [resolve?_concat differs, Relabelling.meaning_ofSlot_id, Option.map_id, id]

end Lexer

namespace Compiled

variable {registry : Registry} {source : String}

/-- Where the trees of a source agree up to slots, so do the compiled formulas. -/
theorem compile_of_alike {slot : Nat → Nat} {names other : List String} (made : registry.Made)
    (valid : ∀ name ∈ names, isName name = true) (distinct : names.Nodup)
    (valid' : ∀ name ∈ other, isName name = true) (distinct' : other.Nodup)
    (alike : Lexer.Alike slot source.toList ⟨names, registry⟩ ⟨other, registry⟩) :
    (compile source (.names other) registry).map Compiled.tree =
      ((compile source (.names names) registry).map Compiled.tree).map
        (Relabelling.ofSlot slot).tree := by
  have validated : Variables.validate (Declaration.names names).toNames = .ok _ :=
    Variables.validate_of_nodup valid distinct
  have validated' : Variables.validate (Declaration.names other).toNames = .ok _ :=
    Variables.validate_of_nodup valid' distinct'
  by_cases nothing : source.toList = []
  · rw [compile_of_empty validated nothing, compile_of_empty validated' nothing]
    rfl
  · rw [compile_map_tree validated nothing, compile_map_tree validated' nothing]
    exact treeOf_of_alike alike made.lawful made.lawful

/-- There is a slot for each declared name. -/
theorem length_slots {declaration : Declaration} {c : Compiled}
    (compiled : compile source declaration registry = .ok c) :
    c.slots.length = declaration.toNames.length := by
  obtain ⟨-, validated, -, slots, -⟩ := compile_eq_ok compiled
  rw [slots, length_zeros, (Variables.validate_eq_ok validated).1]

/-- Formulas with the same tree up to slots have the same value where their slots hold the
same values. -/
theorem exists_value {slot : Nat → Nat} {names other : List String} {c d : Compiled}
    (trees : (compile source (.names other) registry).map Compiled.tree =
      ((compile source (.names names) registry).map Compiled.tree).map
        (Relabelling.ofSlot slot).tree)
    (compiled : compile source (.names names) registry = .ok c)
    (compiled' : compile source (.names other) registry = .ok d) {values values' : List Float}
    (count : values.length = names.length) (count' : values'.length = other.length)
    (same : ∀ index < names.length, slotValue values' (slot index) = slotValue values index) :
    ∃ value, (c.evaluateWith values).map Evaluation.value = .ok value ∧
      (d.evaluateWith values').map Evaluation.value = .ok value := by
  have tree : d.tree = (Relabelling.ofSlot slot).tree c.tree := by
    rw [compiled, compiled'] at trees
    exact Except.ok.inj trees
  have slots : c.slots.length = names.length := length_slots compiled
  have slots' : d.slots.length = other.length := length_slots compiled'
  have worth : d.tree.denote values' = c.tree.denote values := by
    rw [tree]
    refine Relabelling.denote_tree c.tree fun index member => same index ?_
    rw [← slots]
    exact (sound_compile compiled).within index member
  have fits : ¬ values.length ≠ c.slots.length := not_not_intro (count.trans slots.symm)
  have fits' : ¬ values'.length ≠ d.slots.length := not_not_intro (count'.trans slots'.symm)
  refine ⟨c.tree.denote values, ?_, ?_⟩
  · rw [evaluateWith_value, if_neg fits]
  · rw [evaluateWith_value, if_neg fits', worth]

end Compiled

open Compiled in
/-- The declared variables can be exchanged. With their names in another order a source
compiles to the same tree, up to the slots, or fails with the same fault; and for the values
in that order the formula has the same value. With one more name, that is no run of letters
in the source, it compiles to the same tree or fails with the same fault, and has the same
value, whatever the value of the new variable. -/
theorem variables_exchangeable {registry : Registry} (made : registry.Made) {n : Nat}
    {names : Fin n → String} (valid : ∀ i, isName (names i) = true)
    (distinct : Function.Injective names) (source : String) :
    (∀ p : Equiv.Perm (Fin n),
      (compile source (.names (arranged p names)) registry).map Compiled.tree =
          ((compile source (.names (List.ofFn names)) registry).map Compiled.tree).map
            (Relabelling.ofSlot (slotUnder p)).tree ∧
        ∀ c d, compile source (.names (List.ofFn names)) registry = .ok c →
          compile source (.names (arranged p names)) registry = .ok d →
          ∀ values : Fin n → Float, ∃ value,
            (c.evaluateWith (List.ofFn values)).map Evaluation.value = .ok value ∧
              (d.evaluateWith (arranged p values)).map Evaluation.value = .ok value) ∧
    ∀ extra, isName extra = true → (∀ i, names i ≠ extra) → ¬ IsRun source.toList extra.toList →
      (compile source (.names (List.ofFn names ++ [extra])) registry).map Compiled.tree =
          (compile source (.names (List.ofFn names)) registry).map Compiled.tree ∧
        ∀ c d, compile source (.names (List.ofFn names)) registry = .ok c →
          compile source (.names (List.ofFn names ++ [extra])) registry = .ok d →
          ∀ (values : Fin n → Float) (last : Float), ∃ value,
            (c.evaluateWith (List.ofFn values)).map Evaluation.value = .ok value ∧
              (d.evaluateWith (List.ofFn values ++ [last])).map Evaluation.value = .ok value := by
  have valid' : ∀ name ∈ List.ofFn names, isName name = true := List.forall_mem_ofFn_iff.mpr valid
  have distinct' : (List.ofFn names).Nodup := List.nodup_ofFn.mpr distinct
  refine ⟨fun p => ?exchanged, fun extra isExtra other absent => ?appended⟩
  case exchanged =>
    have trees := compile_of_alike made valid' distinct'
      (List.forall_mem_ofFn_iff.mpr fun i => valid (p.symm i))
      (List.nodup_ofFn.mpr (distinct.comp p.symm.injective))
      (Lexer.alike_arranged distinct p source.toList)
    refine ⟨trees, fun c d compiled compiled' values => ?_⟩
    refine exists_value trees compiled compiled' (by simp) (by simp [arranged]) fun index _ => ?_
    exact slotValue_arranged p values index
  case appended =>
    have differs : extra ∉ List.ofFn names := by
      rw [List.mem_ofFn]
      rintro ⟨i, same⟩
      exact other i same
    have distinct'' : (List.ofFn names ++ [extra]).Nodup := by
      rw [← List.concat_eq_append, List.nodup_concat]
      exact ⟨differs, distinct'⟩
    have trees := compile_of_alike made valid' distinct'
      (List.forall_mem_append.mpr ⟨valid', List.forall_mem_singleton.mpr isExtra⟩) distinct''
      (Lexer.alike_concat absent)
    have fixed : (Relabelling.ofSlot id).tree = id :=
      funext ((Relabelling.ofSlot id).tree_of_fixed fun _ => rfl)
    refine ⟨?_, fun c d compiled compiled' values last => ?_⟩
    · rw [trees, fixed, Except.map_id, id]
    · refine exists_value trees compiled compiled' (by simp) (by simp) fun index within => ?_
      rw [slotValue, slotValue, id, List.getElem?_append_left (by simpa using within)]

open Compiled in
/-- Two variables are exchanged, or a third one is added, whose name stands in the source
within a longer run of letters only. -/
theorem variables_exchangeable_difference :
    let names : Fin 2 → String := fun i => if i = 0 then "x" else "yz"
    (∀ i, isName (names i) = true) ∧ Function.Injective names ∧ isName "z" = true ∧
      (∀ i, names i ≠ "z") ∧ ¬ IsRun "x - yz".toList "z".toList ∧
      ∃ c d e, compile "x - yz" (.names ["x", "yz"]) .standard = .ok c ∧
        compile "x - yz" (.names ["yz", "x"]) .standard = .ok d ∧
        compile "x - yz" (.names ["x", "yz", "z"]) .standard = .ok e ∧
        (∃ value, (c.evaluateWith [1, 2]).map Evaluation.value = .ok value ∧
          (d.evaluateWith [2, 1]).map Evaluation.value = .ok value) ∧
        ∃ value, (c.evaluateWith [1, 2]).map Evaluation.value = .ok value ∧
          (e.evaluateWith [1, 2, 3]).map Evaluation.value = .ok value := by
  intro names
  have valid : ∀ i, isName (names i) = true := by decide +kernel
  have distinct : Function.Injective names := by decide +kernel
  have isExtra : isName "z" = true := by decide +kernel
  have other : ∀ i, names i ≠ "z" := by decide +kernel
  have absent : ¬ IsRun "x - yz".toList "z".toList := by decide +kernel
  have compiles : (compile "x - yz" (.names ["x", "yz"]) .standard).isOk = true := by
    decide +kernel
  have compiles' : (compile "x - yz" (.names ["yz", "x"]) .standard).isOk = true := by
    decide +kernel
  have compiles'' : (compile "x - yz" (.names ["x", "yz", "z"]) .standard).isOk = true := by
    decide +kernel
  obtain ⟨c, compiled⟩ := exists_of_isOk compiles
  obtain ⟨d, compiled'⟩ := exists_of_isOk compiles'
  obtain ⟨e, compiled''⟩ := exists_of_isOk compiles''
  obtain ⟨exchanged, appended⟩ := variables_exchangeable .standard valid distinct "x - yz"
  obtain ⟨-, values⟩ := exchanged (Equiv.swap 0 1)
  obtain ⟨-, values'⟩ := appended "z" isExtra other absent
  let inputs : Fin 2 → Float := fun i => if i = 0 then 1 else 2
  exact ⟨valid, distinct, isExtra, other, absent, c, d, e, compiled, compiled', compiled'',
    values c d compiled compiled' inputs, values' c e compiled compiled'' inputs 3⟩

end Formula
