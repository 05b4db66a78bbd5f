/-
# Formula.Proofs.Capacity — the room that is reserved for evaluations

Compiling reserves room for as many values as the staging depth of the tree says. The
buffer grows if an evaluation needs more, but a formula that has room enough keeps just
the room it has, whatever is done with it (`Sound.keeps_room`): only optimizing changes
the tree, and a folded tree needs no more. So no evaluation of a compiled formula ever
makes the buffer grow, and as long as the tree is the one that was compiled every
evaluation fills it at some moment (`evaluation_fills_reserve`).
-/
import Formula.Proofs.Safety
import Formula.Proofs.Tree.Normal

namespace Formula.Compiled

set_option autoImplicit false

variable {c d : Compiled}

/-- The buffer has room for the values that an evaluation puts aside. -/
def Roomy (c : Compiled) : Prop := c.tree.stagingDepth ≤ c.reserved

theorem Sound.size_staged (sound : c.Sound) : c.staged.size = 0 := by
  rw [sound.staged]
  rfl

/-- Where there is room enough, an evaluation does not make the buffer grow. -/
theorem Sound.room_evaluate (sound : c.Sound) (roomy : c.Roomy) :
    c.evaluate.formula.Roomy ∧ c.evaluate.formula.reserved = c.reserved := by
  have peak := sound.saturated.filled.peak_evaluate sound.within c.staged
  rw [sound.size_staged, Nat.zero_add] at peak
  have same : c.evaluate.formula.reserved = c.reserved := by
    show max c.reserved (c.tree.evaluate c.slots (.holding c.staged)).2.peak = c.reserved
    rw [peak]
    exact Nat.max_eq_left roomy
  refine ⟨?_, same⟩
  show c.tree.stagingDepth ≤ c.evaluate.formula.reserved
  rw [same]
  exact roomy

/-- A formula with room enough keeps its room, and it stays enough. -/
theorem Sound.keeps_room (sound : c.Sound) (roomy : c.Roomy) (reaches : c.Reaches d) :
    d.Roomy ∧ d.reserved = c.reserved := by
  induction reaches with
  | refl => exact ⟨roomy, rfl⟩
  | copy _ ih => exact ih
  | optimized _ ih => exact ⟨(Tree.stagingDepth_fold _).trans ih.1, ih.2⟩
  | setSlot _ written ih =>
      obtain ⟨slots, -, rfl⟩ := setSlot?_eq_some written
      exact ih
  | evaluate reached ih =>
      obtain ⟨enough, same⟩ := (sound.of_reaches reached).1.room_evaluate ih.1
      exact ⟨enough, same.trans ih.2⟩
  | evaluateSingle reached evaluated ih =>
      obtain ⟨slots, count, rfl⟩ := evaluateSingle_eq_ok evaluated
      have before := (sound.of_reaches reached).1.withSlots count
      obtain ⟨enough, same⟩ := before.room_evaluate ih.1
      exact ⟨enough, same.trans ih.2⟩
  | evaluateWith reached evaluated ih =>
      obtain ⟨count, rfl⟩ := evaluateWith_eq_ok evaluated
      have before := (sound.of_reaches reached).1.withSlots count
      obtain ⟨enough, same⟩ := before.room_evaluate ih.1
      exact ⟨enough, same.trans ih.2⟩

/-- An evaluation of a tree never holds more values on its buffer than were there before
and the staging depth together, and at some moment it holds so many. A formula that was
compiled has room for as many values as the staging depth of its tree says, and so has
every formula that comes from it. This is room enough for every evaluation, with any
values in the slots, and for the tree that was compiled less would not do. -/
theorem evaluation_fills_reserve :
    (∀ (t : Tree) (slots : List Float) (staged : Array Float), t.Filled →
        (∀ i ∈ t.slots, i < slots.length) →
        t.Peaks slots staged (staged.size + t.stagingDepth)) ∧
      ∀ (source : String) (declaration : Declaration) (registry : Registry) (c d : Compiled)
        (slots : List Float), compile source declaration registry = .ok c → c.Reaches d →
        slots.length = d.slots.length →
        d.reserved = c.tree.stagingDepth ∧
          ∃ top, d.tree.Peaks slots d.staged top ∧ top ≤ d.reserved ∧
            (d.tree = c.tree → top = d.reserved) := by
  refine ⟨fun t slots staged filled within => filled.peaks within staged, ?_⟩
  intro source declaration registry c d slots compiled reaches count
  have start := sound_compile compiled
  obtain ⟨-, -, -, -, -, reserved⟩ := compile_eq_ok compiled
  obtain ⟨sound, -⟩ := start.of_reaches reaches
  obtain ⟨roomy, same⟩ := start.keeps_room reserved.ge reaches
  have within : ∀ i ∈ d.tree.slots, i < slots.length := by
    rw [count]
    exact sound.within
  have peaks := sound.saturated.filled.peaks within d.staged
  rw [sound.size_staged, Nat.zero_add] at peaks
  refine ⟨same.trans reserved, _, peaks, roomy, fun unfolded => ?_⟩
  rw [unfolded, same, reserved]

/-- In `max(1, max(2, max(3, x)))` four values wait at once, so a buffer that held one
holds five. Compiling `x + max(1, max(2, 3))` reserves room for three values, and the
optimized formula and its copies keep within it. -/
theorem evaluation_fills_reserve_max :
    let greater : Routine := .binary "max" fun a b => if a < b then b else a
    let inner : Tree := .call greater [.constant 2.0, .call greater [.constant 3.0, .slot 0]]
    let t : Tree := .call greater [.constant 1.0, inner]
    (t.Filled ∧ (∀ i ∈ t.slots, i < [4.0].length) ∧ t.Peaks [4.0] #[7.0] 5) ∧
      ∃ c, compile "x + max(1, max(2, 3))" (.names ["x"]) .standard = .ok c ∧
        c.tree.stagingDepth = 3 ∧ c.optimized.1.copy.reserved = 3 ∧
        ∃ top, c.optimized.1.copy.tree.Peaks [4.0] c.optimized.1.copy.staged top ∧ top ≤ 3 := by
  intro greater inner t
  have innerFilled : inner.Filled := .pair rfl (.constant _) (.pair rfl (.constant _) (.slot 0))
  have filled : t.Filled := .pair rfl (.constant _) innerFilled
  have within : ∀ i ∈ t.slots, i < [4.0].length := by
    simp [t, inner, Tree.slots, Tree.slotsOfAll]
  refine ⟨⟨filled, within, evaluation_fills_reserve.1 t [4.0] #[7.0] filled within⟩, ?_⟩
  have measured : (compile "x + max(1, max(2, 3))" (.names ["x"]) .standard).toOption.map
      (fun c => (c.tree.stagingDepth, c.slots.length)) = some (3, 1) := by
    decide +kernel
  cases compiled : compile "x + max(1, max(2, 3))" (.names ["x"]) .standard with
  | error fault =>
      rw [compiled] at measured
      cases measured
  | ok c =>
      rw [compiled] at measured
      obtain ⟨depth, count⟩ := Prod.mk.inj (Option.some.inj measured)
      have slots : [4.0].length = c.optimized.1.copy.slots.length :=
        count.symm.trans (length_zeros _).symm
      obtain ⟨reserved, top, peaks, fits, -⟩ := evaluation_fills_reserve.2 _ _ _ c
        c.optimized.1.copy [4.0] compiled (.copy (.optimized .refl)) slots
      rw [depth] at reserved
      exact ⟨c, rfl, depth, reserved, top, peaks, reserved ▸ fits⟩

end Formula.Compiled
