/-
# Formula.Proofs.Safety — compiled formulas stay sound

Compiling gives a formula that is `Sound`: there is one slot for each variable,
the variables of the tree have slots, the calls in it have the arguments they
take, the tree is not too high, and the buffer is empty. Whatever is done with
the formula afterwards keeps it so (`Sound.of_reaches`). In a sound formula no
evaluation reads a slot that does not exist, and neither evaluating nor folding
calls a routine with the wrong number of values (`reached_sound`).
-/
import Formula.Proofs.Compiling
import Formula.Proofs.Grammar.Language
import Formula.Proofs.Lexer.Scope
import Formula.Proofs.Tree.Checked
import Formula.Registry.Standard

namespace Formula

set_option autoImplicit false

namespace Compiled

/-! ## Soundness -/

structure Sound (c : Compiled) : Prop where
  /-- One slot for each variable. -/
  slots : c.slots.length = c.names.length
  letters : ∀ name ∈ c.names, isName name = true
  distinct : c.names.Nodup
  within : ∀ index ∈ c.tree.slots, index < c.slots.length
  saturated : c.tree.Saturated
  low : c.tree.height ≤ Tree.maxHeight
  /-- Nothing is put aside between evaluations. -/
  staged : c.staged = #[]

theorem sound_compile {source : String} {declaration : Declaration} {registry : Registry}
    {c : Compiled} (compiled : compile source declaration registry = .ok c) : c.Sound := by
  obtain ⟨-, validated, read, slots, staged, -⟩ := compile_eq_ok compiled
  obtain ⟨same, letters, distinct⟩ := Variables.validate_eq_ok validated
  rw [← same] at letters distinct
  obtain ⟨tokens, tokenized, built⟩ := treeOf_eq_ok_iff.mp read
  have count : c.slots.length = c.names.length := by rw [slots, length_zeros]
  refine ⟨count, letters, distinct, fun index member => ?_, saturated_of_built built,
    height_of_built built, staged⟩
  obtain ⟨token, inside, meaning⟩ := slot_of_built built member
  rw [count]
  exact slots_tokenize tokenized token inside index meaning

variable {c d : Compiled}

theorem Sound.withSlots (sound : c.Sound) {slots : List Float}
    (count : slots.length = c.slots.length) : Sound { c with slots } :=
  { sound with
    slots := count.trans sound.slots
    within := fun index member => count ▸ sound.within index member }

theorem Sound.copy (sound : c.Sound) : c.copy.Sound :=
  { sound.withSlots (length_zeros c.slots.length) with staged := rfl }

theorem Sound.optimized (sound : c.Sound) : c.optimized.1.Sound :=
  { sound with
    within := fun index member => sound.within index (Tree.slots_fold c.tree ▸ member)
    saturated := sound.saturated.fold
    low := (Tree.height_fold c.tree).trans sound.low }

theorem Sound.evaluate (sound : c.Sound) : c.evaluate.formula.Sound :=
  { sound with
    staged := (Tree.evaluate_staged c.slots c.tree (.holding c.staged)).trans sound.staged }

/-! ## What can be done with a formula -/

/-- The formulas that come from a formula by copying, optimizing, writing slots
that exist, and evaluating. -/
inductive Reaches (c : Compiled) : Compiled → Prop where
  | refl : Reaches c c
  | copy {d : Compiled} : Reaches c d → Reaches c d.copy
  | optimized {d : Compiled} : Reaches c d → Reaches c d.optimized.1
  | setSlot {d e : Compiled} {index : Nat} {value : Float} :
    Reaches c d → d.setSlot? index value = some e → Reaches c e
  | evaluate {d : Compiled} : Reaches c d → Reaches c d.evaluate.formula
  | evaluateSingle {d : Compiled} {value : Float} {result : Evaluation} :
    Reaches c d → d.evaluateSingle value = .ok result → Reaches c result.formula
  | evaluateWith {d : Compiled} {values : List Float} {result : Evaluation} :
    Reaches c d → d.evaluateWith values = .ok result → Reaches c result.formula

theorem Sound.setSlot {e : Compiled} {index : Nat} {value : Float} (sound : d.Sound)
    (written : d.setSlot? index value = some e) : e.Sound ∧ e.names = d.names := by
  obtain ⟨slots, count, rfl⟩ := setSlot?_eq_some written
  exact ⟨sound.withSlots count, rfl⟩

theorem Sound.evaluateSingle {value : Float} {result : Evaluation} (sound : d.Sound)
    (evaluated : d.evaluateSingle value = .ok result) :
    result.formula.Sound ∧ result.formula.names = d.names := by
  obtain ⟨slots, count, rfl⟩ := evaluateSingle_eq_ok evaluated
  exact ⟨(sound.withSlots count).evaluate, rfl⟩

theorem Sound.evaluateWith {values : List Float} {result : Evaluation} (sound : d.Sound)
    (evaluated : d.evaluateWith values = .ok result) :
    result.formula.Sound ∧ result.formula.names = d.names := by
  obtain ⟨count, rfl⟩ := evaluateWith_eq_ok evaluated
  exact ⟨(sound.withSlots count).evaluate, rfl⟩

/-- Soundness and the variables stay. -/
theorem Sound.of_reaches (sound : c.Sound) (reaches : c.Reaches d) :
    d.Sound ∧ d.names = c.names := by
  induction reaches with
  | refl => exact ⟨sound, rfl⟩
  | copy _ ih => exact ⟨ih.1.copy, ih.2⟩
  | optimized _ ih => exact ⟨ih.1.optimized, ih.2⟩
  | setSlot _ written ih =>
      obtain ⟨after, same⟩ := ih.1.setSlot written
      exact ⟨after, same.trans ih.2⟩
  | evaluate _ ih => exact ⟨ih.1.evaluate, ih.2⟩
  | evaluateSingle _ evaluated ih =>
      obtain ⟨after, same⟩ := ih.1.evaluateSingle evaluated
      exact ⟨after, same.trans ih.2⟩
  | evaluateWith _ evaluated ih =>
      obtain ⟨after, same⟩ := ih.1.evaluateWith evaluated
      exact ⟨after, same.trans ih.2⟩

/-- Whatever was done with a compiled formula, it is sound, and its variables are
the declared ones. With any values in its slots, an evaluation reads only slots
that exist and calls every routine with as many values as it takes, and so does
folding. -/
theorem reached_sound {source : String} {declaration : Declaration} {registry : Registry}
    (compiled : compile source declaration registry = .ok c) (reaches : c.Reaches d) :
    d.Sound ∧ d.names = declaration.toNames ∧
      (∀ slots : List Float, slots.length = d.slots.length →
        d.tree.evaluate? slots (.holding d.staged) =
          some (d.tree.evaluate slots (.holding d.staged))) ∧
      d.tree.folding? = some d.tree.folding := by
  obtain ⟨sound, names⟩ := (sound_compile compiled).of_reaches reaches
  obtain ⟨declared, -, -⟩ := Variables.validate_eq_ok (compile_eq_ok compiled).2.1
  have filled := sound.saturated.filled
  refine ⟨sound, names.trans declared, fun slots count => ?_, Tree.folding?_of_filled filled⟩
  refine Tree.evaluate?_of_filled filled (fun index member => ?_) _
  rw [count]
  exact sound.within index member

theorem reached_sound_max :
    ∃ c, compile "max(x, 2) + y" (.names ["x", "y"]) .standard = .ok c ∧
      c.copy.evaluate.formula.optimized.1.Sound ∧
      c.copy.evaluate.formula.optimized.1.names = ["x", "y"] := by
  have succeeds : (compile "max(x, 2) + y" (.names ["x", "y"]) .standard).isOk = true := by
    decide +kernel
  cases compiled : compile "max(x, 2) + y" (.names ["x", "y"]) .standard with
  | error fault =>
      rw [compiled] at succeeds
      cases succeeds
  | ok c =>
      obtain ⟨sound, names, -⟩ := reached_sound compiled (.optimized (.evaluate (.copy .refl)))
      exact ⟨c, rfl, sound, names⟩

end Compiled

end Formula
