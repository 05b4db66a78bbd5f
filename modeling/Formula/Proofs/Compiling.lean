/-
# Formula.Proofs.Compiling — when a source compiles

Compiling goes through three checks, in this order: the declared names can stand
together, there is a text, and it gives a tree (`compile_eq_error`). Where the
first two hold, all that matters about a formula is the tree of its source
(`compile_map_tree`).
-/
import Formula.Compiled

namespace Formula

set_option autoImplicit false

namespace Variables

theorem firstRepeated?_eq_none_iff {seen names : List String} :
    firstRepeated? seen names = none ↔ names.Nodup ∧ ∀ name ∈ names, name ∉ seen := by
  induction names generalizing seen with
  | nil => simp [firstRepeated?]
  | cons name rest ih =>
      rw [firstRepeated?, List.nodup_cons, List.forall_mem_cons]
      split
      · rename_i again
        simp [again]
      · rename_i new
        rw [ih]
        constructor
        · rintro ⟨distinct, unseen⟩
          refine ⟨⟨fun again => ?_, distinct⟩, new, fun other member inside => ?_⟩
          · exact unseen name again (List.mem_cons_self ..)
          · exact unseen other member (List.mem_cons_of_mem _ inside)
        · rintro ⟨⟨once, distinct⟩, -, unseen⟩
          refine ⟨distinct, fun other member inside => ?_⟩
          rcases List.mem_cons.mp inside with rfl | earlier
          · exact once member
          · exact unseen other member earlier

/-- Variables that pass are the declared ones, valid names, and all different. -/
theorem validate_eq_ok_iff {names valid : List String} :
    validate names = .ok valid ↔
      valid = names ∧ (∀ name ∈ names, isName name = true) ∧ names.Nodup := by
  have letters : names.find? (fun name => !isName name) = none ↔
      ∀ name ∈ names, isName name = true := by simp
  have distinct : firstRepeated? [] names = none ↔ names.Nodup := by
    simp [firstRepeated?_eq_none_iff]
  rw [← letters, ← distinct, validate]
  cases names.find? fun name => !isName name with
  | some name => simp
  | none => cases firstRepeated? [] names <;> simp [eq_comm]

theorem validate_eq_ok {names valid : List String} (validated : validate names = .ok valid) :
    valid = names ∧ (∀ name ∈ names, isName name = true) ∧ names.Nodup :=
  validate_eq_ok_iff.mp validated

/-- Valid names that are all different pass. -/
theorem validate_of_nodup {names : List String} (valid : ∀ name ∈ names, isName name = true)
    (distinct : names.Nodup) : validate names = .ok names :=
  validate_eq_ok_iff.mpr ⟨rfl, valid, distinct⟩

/-- Names fail because one is bad or one is declared twice. -/
theorem validate_eq_error {names : List String} {fault : Fault}
    (failed : validate names = .error fault) :
    (∃ name, fault = .badName name) ∨ ∃ name, fault = .duplicateName name := by
  unfold validate at failed
  split at failed
  · cases failed
    exact .inl ⟨_, rfl⟩
  · split at failed
    · cases failed
      exact .inr ⟨_, rfl⟩
    · cases failed

end Variables

namespace Compiled

theorem exists_of_isOk {α : Type} {result : Except Fault α} (succeeds : result.isOk = true) :
    ∃ value, result = .ok value := by
  cases result with
  | error fault => cases succeeds
  | ok value => exact ⟨value, rfl⟩

variable {source : String} {declaration : Declaration} {registry : Registry}

/-- Compiling fails for the names, or for want of a text, or because the source gives
no tree. -/
theorem compile_eq_error {fault : Fault}
    (failed : compile source declaration registry = .error fault) :
    Variables.validate declaration.toNames = .error fault ∨
      (source.toList = [] ∧ fault = .emptyExpression) ∨
      (source.toList ≠ [] ∧
        treeOf ⟨declaration.toNames, registry⟩ source.toList = .error fault) := by
  simp only [compile, bind, Except.bind, pure, Except.pure, throw, throwThe,
    MonadExceptOf.throw] at failed
  split at failed
  · rename_i invalid
    cases failed
    exact .inl invalid
  rename_i names validated
  obtain ⟨rfl, -⟩ := Variables.validate_eq_ok validated
  split at failed
  · rename_i nothing
    cases failed
    exact .inr (.inl ⟨nothing, rfl⟩)
  rename_i some_
  split at failed
  · rename_i unbuilt
    cases failed
    exact .inr (.inr ⟨some_, unbuilt⟩)
  · cases failed

/-- With names that do not pass nothing compiles. -/
theorem compile_of_invalid {fault : Fault}
    (invalid : Variables.validate declaration.toNames = .error fault) (source : String) :
    compile source declaration registry = .error fault := by
  simp only [compile, invalid, bind, Except.bind]

theorem compile_of_empty
    (validated : Variables.validate declaration.toNames = .ok declaration.toNames)
    (nothing : source.toList = []) :
    compile source declaration registry = .error .emptyExpression := by
  simp [compile, validated, nothing, bind, Except.bind, throw, throwThe, MonadExceptOf.throw]

/-- With names that pass, a text compiles to its tree. -/
theorem compile_map_tree
    (validated : Variables.validate declaration.toNames = .ok declaration.toNames)
    (some_ : source.toList ≠ []) :
    (compile source declaration registry).map Compiled.tree =
      treeOf ⟨declaration.toNames, registry⟩ source.toList := by
  simp only [compile, validated, some_, if_false, bind, Except.bind, pure, Except.pure]
  cases treeOf ⟨declaration.toNames, registry⟩ source.toList <;> rfl

/-- A text fails for the declared names, or else gives what its tree is. -/
theorem compile_map_tree_eq_bind (some_ : source.toList ≠ []) :
    (compile source declaration registry).map Compiled.tree =
      (Variables.validate declaration.toNames).bind fun _ =>
        treeOf ⟨declaration.toNames, registry⟩ source.toList := by
  cases validated : Variables.validate declaration.toNames with
  | error fault =>
      rw [compile_of_invalid validated]
      rfl
  | ok names =>
      obtain ⟨rfl, -⟩ := Variables.validate_eq_ok validated
      exact compile_map_tree validated some_

end Compiled

end Formula
