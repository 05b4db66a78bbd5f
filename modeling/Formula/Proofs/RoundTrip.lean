/-
# Formula.Proofs.RoundTrip — what is written for a tree compiles to the tree

The written form of a tree, with the names of the variables in place of their
slots, is a source of the tree (`compile_render`). What is needed of the tree is
that it is `Over` the scope the source is compiled in, and low enough; of the
names, that they can be declared together.

Each part of the written form is read as a primary of the grammar
(`Tree.Over.reads`). A constant keeps its minus, for it stands at the beginning,
after a mark or after an operator, and is the same double to the bit; a symbol is
read whole, for white space follows it; and each pair of parentheses around an
operator makes a run of its own, in which there is no precedence to respect.
-/
import Formula.Proofs.Composition
import Formula.Proofs.Tree.Naming

namespace Formula

set_option autoImplicit false

open Lexer (Reads lastCategory)

/-- A scope in which everything that has a name or a symbol can be read. -/
structure Scope.Lawful (scope : Scope) : Prop where
  registry : scope.registry.Lawful
  letters : ∀ name ∈ scope.names, isName name = true
  distinct : scope.names.Nodup

/-! ## Parts of the written form -/

/-- The text is read as a primary that stands for the tree. -/
def Lexer.ReadsAs (scope : Scope) (cs : List Char) (t : Tree) : Prop :=
  ∃ p : Primary, p.tree = t ∧ Reads scope cs 0 none p.tokens

namespace Lexer

variable {scope : Scope}

/-- Where no operand stands before it, a number keeps its minus. -/
theorem number_of_due {previous : Option Category} (due : endsOperand previous = false)
    (text : List Char) (start : Nat) :
    number scope previous text start = whole text start (some (.constant (literal text))) := by
  rw [number.eq_def, due]
  split
  · rename_i isTrue
    cases isTrue
  · rfl

theorem ReadsAs.constant {value : Float} (finite : value.isFinite = true) :
    ReadsAs scope (Number.display value).toList (.constant value) := by
  obtain ⟨whole_, some_⟩ := Number.signedNumber_display finite
  have here : scope.registry.pattern.lexeme? (Number.display value).toList =
      some (.number, (Number.display value).toList) := by
    simp only [Pattern.lexeme?, whole_, ne_eq, some_, not_false_eq_true, if_true]
  have means : literal (Number.display value).toList = value := by
    rw [literal, Number.read?_display finite, Option.getD_some]
  refine ⟨.constant value ⟨0, 0 + Text.byteLength (Number.display value).toList⟩, rfl, ?_⟩
  refine .single here ?_
  have due : endsOperand none = false := rfl
  simp only [read, number_of_due due, means, whole]

theorem ReadsAs.slot (lawful : scope.Lawful) {index : Nat} (within : index < scope.names.length) :
    ReadsAs scope (scope.nameOf index) (.slot index) := by
  have name : scope.nameOf index = scope.names[index].toList := by
    rw [Scope.nameOf, List.getElem?_eq_getElem within, Option.getD_some]
  rw [name]
  refine ⟨.slot index ⟨0, 0 + scope.names[index].utf8ByteSize⟩, rfl, ?_⟩
  exact .name (lawful.letters _ (List.getElem_mem within)) (resolve?_slot lawful.distinct within)

/-- A primary has tokens, so its text is not empty. -/
theorem ReadsAs.ne_nil (lawful : scope.Lawful) {cs : List Char} {t : Tree}
    (reads : ReadsAs scope cs t) : cs ≠ [] := by
  rintro rfl
  obtain ⟨p, -, reads⟩ := reads
  have scanned := (reads_iff lawful.registry).mp reads
  rw [scan_of_none rfl, Lexed.mk.injEq] at scanned
  have positive := p.tokens_positive
  rw [← scanned.1] at positive
  exact Nat.lt_irrefl 0 positive

/-- Two parts with the symbol of an operator between them, in parentheses. -/
theorem ReadsAs.apply (lawful : scope.Lawful) {o : Operator}
    (found : scope.registry.operator? o.symbol = some o) {left right : List Char} {lhs rhs : Tree}
    (readsLeft : ReadsAs scope left lhs) (readsRight : ReadsAs scope right rhs) :
    ReadsAs scope ('(' :: left ++ ' ' :: o.symbol.toList ++ ' ' :: right ++ [')'])
      (.apply o lhs rhs) := by
  obtain ⟨p, rfl, readsLeft⟩ := readsLeft
  obtain ⟨q, rfl, readsRight⟩ := readsRight
  let start := Text.byteLength left + 1
  let stop := start + o.symbol.utf8ByteSize
  -- the spans count from the beginning of the left part; the parentheses move them
  let inner : Phrase := .chain p o ⟨start, stop⟩ (.last (q.moved (stop + 1)))
  have after : Reads scope right (stop + 1) (some .operator) (q.moved (stop + 1)).tokens :=
    Reads.phrase (p := .last q) readsRight rfl
  have readsSymbol : Reads scope (o.symbol.toList ++ ' ' :: right) start
      (lastCategory none p.tokens)
      ([⟨.operator o, ⟨start, stop⟩⟩] ++ (q.moved (stop + 1)).tokens) := by
    refine (Reads.symbol lawful.registry found).append lawful.registry rfl (.blank rfl ?_)
    rw [Text.byteLength_toList]
    exact after
  have readsInner : Reads scope (left ++ ' ' :: (o.symbol.toList ++ ' ' :: right)) 0 none
      inner.tokens := by
    refine readsLeft.append lawful.registry rfl (.blank rfl ?_)
    rw [Nat.zero_add]
    exact readsSymbol
  -- no other operator stands at this level, so no precedence can make it another root
  have alone : Run.IsRoot (Run.single p.tree).operators o
      (Run.single (q.moved (stop + 1)).tree).operators :=
    ⟨by simp, by simp, by simp, by simp⟩
  refine ⟨groupAt 0 (Text.byteLength (left ++ ' ' :: (o.symbol.toList ++ ' ' :: right))) inner,
    ?_, ?_⟩
  · rw [tree_groupAt]
    show ((Run.single p.tree).join o (Run.single (q.moved (stop + 1)).tree)).tree = _
    rw [Run.tree_join alone, Run.tree_single, Run.tree_single, q.tree_moved]
  · simpa using readsInner.group lawful.registry .nil

/-- White space before a part makes no difference. -/
theorem ReadsAs.blank {cs : List Char} {t : Tree} (reads : ReadsAs scope cs t) :
    ReadsAs scope (' ' :: cs) t := by
  obtain ⟨p, rfl, reads⟩ := reads
  exact ⟨p.moved 1, p.tree_moved 1, .blank rfl (Reads.phrase (p := .last p) reads rfl)⟩

/-- Texts that are read as trees are read as phrases for them. -/
theorem exists_parts {texts : List (List Char)} {trees : List Tree}
    (reads : List.Forall₂ (ReadsAs scope) texts trees) :
    ∃ parts : List (List Char × Phrase), parts.map Prod.fst = texts ∧
      parts.map (·.2.tree) = trees ∧ ∀ part ∈ parts, Reads scope part.1 0 none part.2.tokens := by
  induction reads with
  | nil => exact ⟨[], rfl, rfl, by simp⟩
  | @cons cs t texts trees first _ ih =>
      obtain ⟨p, rfl, reads⟩ := first
      obtain ⟨parts, textsEq, treesEq, all⟩ := ih
      refine ⟨(cs, .last p) :: parts, by simp [textsEq], ?_, List.forall_mem_cons.mpr ⟨reads, all⟩⟩
      rw [List.map_cons, treesEq, p.tree_last]

/-- The name of a routine and, in parentheses, as many parts as it takes. -/
theorem ReadsAs.call (lawful : scope.Lawful) {r : Routine}
    (found : scope.registry.routine? r.name = some r) (unshadowed : r.name ∉ scope.names)
    {texts : List (List Char)} {trees : List Tree} (count : trees.length = r.arity)
    (reads : List.Forall₂ (ReadsAs scope) texts trees) :
    ReadsAs scope (r.name.toList ++ '(' :: ([','].intercalate texts ++ [')'])) (.call r trees) := by
  obtain ⟨parts, rfl, rfl, readsParts⟩ := exists_parts reads
  rw [List.length_map] at count
  obtain ⟨arguments, closing, treesEq, readsCall⟩ :=
    Reads.call lawful.registry found unshadowed count readsParts
  refine ⟨.call r _ _ arguments closing, ?_, readsCall⟩
  rw [Primary.tree, treesEq]

end Lexer

/-! ## The written form -/

open Lexer (ReadsAs)

namespace Tree

variable {scope : Scope} {name : Nat → List Char}

/-- The texts between the commas when trees are written: each but the first begins
with a space. -/
def spaced (name : Nat → List Char) : List Tree → List (List Char)
  | [] => []
  | t :: ts => t.renderWith name :: ts.map fun u => ' ' :: u.renderWith name

theorem renderAllWith_eq (ts : List Tree) :
    renderAllWith name ts = [','].intercalate (spaced name ts) := by
  induction ts with
  | nil => rfl
  | cons t ts ih =>
      cases ts with
      | nil => simp [renderAllWith, spaced]
      | cons u us =>
          cases us <;> simp_all [renderAllWith, spaced]

theorem reads_spaced {ts : List Tree}
    (each : ∀ t ∈ ts, ReadsAs scope (t.renderWith name) t) :
    List.Forall₂ (ReadsAs scope) (spaced name ts) ts := by
  cases ts with
  | nil => exact .nil
  | cons t ts =>
      refine .cons (each t (List.mem_cons_self ..)) ?_
      rw [List.forall₂_map_left_iff, List.forall₂_same]
      exact fun u member => (each u (List.mem_cons_of_mem _ member)).blank

/-- Written with the names of the variables, a tree over a scope is read as itself. -/
theorem Over.reads (lawful : scope.Lawful) {t : Tree} (within : t.Over scope) :
    ReadsAs scope (t.renderWith scope.nameOf) t := by
  induction within with
  | constant finite => exact .constant finite
  | slot below => exact .slot lawful below
  | apply found _ _ left right => exact .apply lawful found left right
  | call found unshadowed count _ each =>
      rw [renderWith, renderAllWith_eq]
      simpa using ReadsAs.call lawful found unshadowed count (reads_spaced each)

end Tree

namespace Compiled

variable {registry : Registry}

/-- The written form of a tree, with the declared names in place of the slots,
compiles to the tree. -/
theorem compile_render (made : registry.Made) (declaration : Declaration)
    (valid : ∀ name ∈ declaration.toNames, isName name = true)
    (distinct : declaration.toNames.Nodup) {t : Tree}
    (within : t.Over ⟨declaration.toNames, registry⟩) (low : t.height ≤ Tree.maxHeight) :
    (compile (String.ofList (Scope.fillSlots ⟨declaration.toNames, registry⟩ t.render.toList))
      declaration registry).map Compiled.tree = .ok t := by
  have lawful : Scope.Lawful ⟨declaration.toNames, registry⟩ := ⟨made.lawful, valid, distinct⟩
  have readsAs := within.reads lawful
  rw [← Scope.fillSlots_render lawful.registry within] at readsAs
  have nonempty := readsAs.ne_nil lawful
  obtain ⟨p, rfl, reads⟩ := readsAs
  rw [← String.toList_ofList (l := Scope.fillSlots _ _)] at nonempty reads
  have validated := Variables.validate_of_nodup valid distinct
  have built : treeOfTokens p.tokens = .ok p.tree := by
    rw [← p.tree_last] at low ⊢
    exact Phrase.treeOfTokens_of_le low
  rw [compile_of_reads lawful.registry validated nonempty reads, built]

/-- The tree of `max((x - -0.5), -0)`. -/
theorem compile_render_minus : ∃ (minus : Operator) (max : Routine),
    Registry.standard.operator? "-" = some minus ∧ Registry.standard.routine? "max" = some max ∧
      (compile (String.ofList (Scope.fillSlots ⟨["x"], .standard⟩ (Tree.render
        (.call max [.apply minus (.slot 0) (.constant (-0.5)), .constant (-0.0)])).toList))
        (.names ["x"]) .standard).map Compiled.tree =
          .ok (.call max [.apply minus (.slot 0) (.constant (-0.5)), .constant (-0.0)]) := by
  have hasMinus : (Registry.standard.operator? "-").isSome = true := by decide +kernel
  have hasMax : (Registry.standard.routine? "max").map Routine.arity = some 2 := by
    decide +kernel
  obtain ⟨minus, foundMinus⟩ := Option.isSome_iff_exists.mp hasMinus
  obtain ⟨max, foundMax, arity⟩ := Option.map_eq_some_iff.mp hasMax
  obtain ⟨-, symbol, -⟩ := Registry.lawful_standard.symbol_of_operator? foundMinus
  obtain ⟨name, -⟩ := Registry.lawful_standard.name_of_routine? foundMax
  have difference : Tree.Over ⟨["x"], .standard⟩ (.apply minus (.slot 0) (.constant (-0.5))) := by
    refine .apply ?_ (.slot (by decide)) (.constant (by decide +kernel))
    rw [symbol, foundMinus]
  have within : Tree.Over ⟨["x"], .standard⟩
      (.call max [.apply minus (.slot 0) (.constant (-0.5)), .constant (-0.0)]) := by
    refine .call ?_ ?_ arity.symm ?_
    · rw [name, foundMax]
    · rw [name]
      decide
    · exact List.forall_mem_cons.mpr
        ⟨difference, List.forall_mem_singleton.mpr (.constant (by decide +kernel))⟩
  have low : Tree.height (.call max [.apply minus (.slot 0) (.constant (-0.5)), .constant (-0.0)]) ≤
      Tree.maxHeight := by
    simp only [Tree.height, Tree.heightOfAll]
    decide
  refine ⟨minus, max, foundMinus, foundMax, ?_⟩
  exact compile_render .standard (.names ["x"]) (by decide) (by decide) within low

end Compiled

end Formula
