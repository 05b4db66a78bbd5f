/-
# Formula.Proofs.Grammar.Language — the formulas are the phrases of the grammar

The check of neighbours, the conversion and the assembly each look at one side
of a formula only. Together they accept the phrases of the grammar whose trees
are not too high, and nothing else (`accepted_iff_phrase`), and the tree they
build is the one the phrase stands for (`built_iff_tree_of_phrase`).

In one direction a phrase is followed through the stages
(`Phrase.treeOfTokens_of_le`, `Phrase.treeOfTokens_of_lt`); in the other,
`exists_phrase` finds the phrase behind tokens that were accepted.
-/
import Formula.Proofs.Conversion.Reordering
import Formula.Proofs.Grammar.Descent

namespace Formula

set_option autoImplicit false

open Conversion (Floor)

/-! ## Phrases through the stages -/

mutual

theorem Primary.saturated : ∀ operand : Primary, operand.tree.Saturated
  | .constant value _ => .constant value
  | .slot index _ => .slot index
  | .group _ inner _ => Run.tree_induct inner.saturated.1 inner.saturated.2 fun o _ _ => .apply o
  | .call r _ _ arguments _ =>
      .call r arguments.positive arguments.length_trees arguments.saturated

theorem Phrase.saturated : ∀ p : Phrase,
    p.run.first.Saturated ∧ ∀ q ∈ p.run.rest, q.2.Saturated
  | .last operand => ⟨operand.saturated, by simp [Phrase.run, Run.single]⟩
  | .chain operand o _ rest => by
      refine ⟨operand.saturated, fun q member => ?_⟩
      rcases List.mem_cons.mp member with rfl | later
      · exact rest.saturated.1
      · exact rest.saturated.2 q later

theorem Arguments.saturated {n : Nat} : ∀ arguments : Arguments n,
    ∀ t ∈ arguments.trees, t.Saturated
  | .last argument => by
      intro t member
      obtain rfl := List.mem_singleton.mp member
      exact Run.tree_induct argument.saturated.1 argument.saturated.2 fun o _ _ => .apply o
  | .more argument _ rest => by
      intro t member
      rcases List.mem_cons.mp member with rfl | later
      · exact Run.tree_induct argument.saturated.1 argument.saturated.2 fun o _ _ => .apply o
      · exact rest.saturated t later

end

theorem Phrase.tree_saturated (p : Phrase) : p.tree.Saturated :=
  Run.tree_induct p.saturated.1 p.saturated.2 fun o _ _ => .apply o

/-- The conversion turns the tokens of a phrase into the postorder of its tree. -/
theorem Phrase.toPostfix_tokens (p : Phrase) :
    ∃ out : List Token, toPostfix p.tokens = .ok out ∧
      out.map Token.meaning = p.tree.postorder := by
  obtain ⟨out, kept, closed, order, runs⟩ :=
    p.run_tokens [] [] [] [] [] [] rfl (by rintro top ⟨⟩)
  refine ⟨out ++ kept, ?_, ?_⟩
  · simp only [List.append_nil] at runs
    exact Conversion.toPostfix_eq_ok_iff.mpr
      ⟨_, runs, fun t member => by simp [closed t member], by simp⟩
  · simpa [Conversion.settled, Run.reading_eq_tree, Phrase.tree] using order

/-- The stages agree with the assembly of the postorder. -/
theorem Phrase.exists_postfix (p : Phrase) : ∃ out : List Token,
    treeOfTokens p.tokens = Tree.ofPostfix out ∧ Assembly.Builds out p.tree := by
  obtain ⟨out, converted, order⟩ := p.toPostfix_tokens
  have checked := Infix.check_eq_ok_iff.mpr ⟨rfl, p.ordered⟩
  refine ⟨out, ?_, Assembly.builds_postorder p.tree_saturated.filled out order⟩
  simp [treeOfTokens, bind, Except.bind, checked, converted]

theorem Phrase.treeOfTokens_of_le {p : Phrase} (low : p.tree.height ≤ Tree.maxHeight) :
    treeOfTokens p.tokens = .ok p.tree := by
  obtain ⟨out, stages, builds⟩ := p.exists_postfix
  obtain ⟨operand, treeEq, -, runs⟩ := builds.ok low
  rw [stages, Tree.ofPostfix, runs]
  simp [Assembly.finish, treeEq]

theorem Phrase.treeOfTokens_of_lt {p : Phrase} (high : Tree.maxHeight < p.tree.height) :
    ∃ span, treeOfTokens p.tokens = .error (.tooDeep Tree.maxHeight span) := by
  obtain ⟨out, stages, builds⟩ := p.exists_postfix
  obtain ⟨span, fails⟩ := builds.tooDeep high
  exact ⟨span, by rw [stages, Tree.ofPostfix, fails]⟩

/-- A tree that is built is the tree of every phrase with these tokens, and not
too high. -/
theorem Phrase.tree_eq {p : Phrase} {t : Tree} (built : treeOfTokens p.tokens = .ok t) :
    p.tree = t ∧ t.height ≤ Tree.maxHeight := by
  rcases Nat.lt_or_ge Tree.maxHeight p.tree.height with high | low
  · obtain ⟨span, fails⟩ := treeOfTokens_of_lt high
    rw [fails] at built
    cases built
  · rw [treeOfTokens_of_le low] at built
    cases built
    exact ⟨rfl, low⟩

/-! ## Trees that are built -/

theorem saturated_of_built {tokens : List Token} {t : Tree}
    (built : treeOfTokens tokens = .ok t) : t.Saturated := by
  obtain ⟨p, rfl⟩ := exists_phrase built
  obtain ⟨rfl, -⟩ := Phrase.tree_eq built
  exact p.tree_saturated

theorem height_of_built {tokens : List Token} {t : Tree}
    (built : treeOfTokens tokens = .ok t) : t.height ≤ Tree.maxHeight := by
  obtain ⟨p, rfl⟩ := exists_phrase built
  exact (Phrase.tree_eq built).2

/-- Every variable of the tree is one of the tokens. -/
theorem slot_of_built {tokens : List Token} {t : Tree} (built : treeOfTokens tokens = .ok t)
    {index : Nat} (member : index ∈ t.slots) :
    ∃ token ∈ tokens, token.meaning = .slot index := by
  obtain ⟨p, rfl⟩ := exists_phrase built
  obtain ⟨rfl, -⟩ := Phrase.tree_eq built
  obtain ⟨out, converted, order⟩ := p.toPostfix_tokens
  have listed := Tree.slot_mem_postorder member
  rw [← order] at listed
  obtain ⟨token, inside, meaning⟩ := List.mem_map.mp listed
  have material : token ∈ Conversion.material out := by
    refine List.mem_filter.mpr ⟨inside, ?_⟩
    simp [Token.category, meaning, Category.isGrouping]
  have kept := (Conversion.toPostfix_perm converted).mem_iff.mp material
  exact ⟨token, (List.mem_filter.mp kept).1, meaning⟩

/-! ## The language -/

/-- The tokens of a phrase are accepted unless its tree is too high, which is then
the fault, and no other tokens are. What is accepted closes every parenthesis
it opens, gives every call its arguments, and nowhere leaves an operand in
surplus that something else could make up for. -/
theorem accepted_iff_phrase (tokens : List Token) :
    ((∃ t, treeOfTokens tokens = .ok t) ↔
        ∃ p : Phrase, p.tokens = tokens ∧ p.tree.height ≤ Tree.maxHeight) ∧
      (∀ p : Phrase, p.tokens = tokens → Tree.maxHeight < p.tree.height →
        ∃ span, treeOfTokens tokens = .error (.tooDeep Tree.maxHeight span)) ∧
      ∀ t, treeOfTokens tokens = .ok t → Nesting.Balanced [] none tokens 0 := by
  refine ⟨⟨?_, ?_⟩, ?_, fun t built => (Nesting.balanced_of_tree built).2⟩
  · rintro ⟨t, built⟩
    obtain ⟨p, rfl⟩ := exists_phrase built
    obtain ⟨rfl, low⟩ := Phrase.tree_eq built
    exact ⟨p, rfl, low⟩
  · rintro ⟨p, rfl, low⟩
    exact ⟨p.tree, Phrase.treeOfTokens_of_le low⟩
  · rintro p rfl high
    exact Phrase.treeOfTokens_of_lt high

/-- Two operands side by side are not two arguments, and neither are two operands
with a separator in parentheses of their own. -/
example :
    let spread (meanings : List Meaning) : List Token := meanings.map fun m => ⟨m, ⟨0, 0⟩⟩
    let f : Meaning := .routine ⟨"f", 2, fun _ => 0.0, false⟩
    (treeOfTokens (spread [f, .opening, .constant 1.0, .constant 2.0, .closing])).isOk = false ∧
      (treeOfTokens (spread [f, .opening, .opening, .constant 1.0, .separator, .constant 2.0,
        .closing, .closing])).isOk = false ∧
      (treeOfTokens (spread [f, .opening, .constant 1.0, .separator, .constant 2.0,
        .closing])).isOk = true := by
  decide

/-- The tree that is built is the one the grammar gives, that of any phrase with
these tokens. In it a run with operators is split at its root, into the tree of
what stands before it and the tree of what stands after it. -/
theorem built_iff_tree_of_phrase (tokens : List Token) (t : Tree) :
    (treeOfTokens tokens = .ok t ↔
        t.height ≤ Tree.maxHeight ∧ (∃ p : Phrase, p.tokens = tokens) ∧
          ∀ p : Phrase, p.tokens = tokens → p.tree = t) ∧
      ∀ run : Run, run.rest ≠ [] → ∃ (left : Run) (o : Operator) (right : Run),
        run = left.join o right ∧ Run.IsRoot left.operators o right.operators ∧
          run.tree = .apply o left.tree right.tree := by
  refine ⟨⟨fun built => ?_, ?_⟩, fun run => Run.exists_split⟩
  · obtain ⟨p, rfl⟩ := exists_phrase built
    refine ⟨(Phrase.tree_eq built).2, ⟨p, rfl⟩, fun q same => ?_⟩
    rw [← same] at built
    exact (Phrase.tree_eq built).1
  · rintro ⟨low, ⟨p, rfl⟩, trees⟩
    obtain rfl := trees p rfl
    exact Phrase.treeOfTokens_of_le low

end Formula
