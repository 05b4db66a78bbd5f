/-
# Formula.Proofs.Composition — compiling a text put together from others

A source that compiles can stand between parentheses in a larger one and means
there what it means alone. `compile_composes` says so for the two ways in which
formulas are built from formulas: two of them around an operator's symbol, and
several of them as the arguments of a routine. Neither what they begin or end
with nor what other symbols there are plays a part.

The lexer reads such a text part by part (`Reads.group`, `Reads.call`); the
phrases of the parts, further back in the text, make up its phrase
(`Phrase.moved`); and where its tree is too high although theirs are not, the
fault is at the new symbol or name (`treeOfTokens_infix`, `treeOfTokens_call`).
-/
import Formula.Proofs.Grammar.Language
import Formula.Proofs.Lexer.Reading
import Formula.Proofs.Safety
import Formula.Proofs.Tree.Inversion

namespace Formula

set_option autoImplicit false

open Lexer (Reads lastCategory endsOperand)

/-! ## Phrases further back in a text -/

mutual

/-- The primary with all its tokens further back. -/
def Primary.moved (bytes : Nat) : Primary → Primary
  | .constant value span => .constant value (span.moved bytes)
  | .slot index span => .slot index (span.moved bytes)
  | .group opening inner closing =>
      .group (opening.moved bytes) (inner.moved bytes) (closing.moved bytes)
  | .call r name opening arguments closing =>
      .call r (name.moved bytes) (opening.moved bytes) (arguments.moved bytes)
        (closing.moved bytes)

def Phrase.moved (bytes : Nat) : Phrase → Phrase
  | .last operand => .last (operand.moved bytes)
  | .chain operand o span rest =>
      .chain (operand.moved bytes) o (span.moved bytes) (rest.moved bytes)

def Arguments.moved {n : Nat} (bytes : Nat) : Arguments n → Arguments n
  | .last argument => .last (argument.moved bytes)
  | .more argument separator rest =>
      .more (argument.moved bytes) (separator.moved bytes) (rest.moved bytes)

end

section Moved

variable (bytes : Nat)

mutual

theorem Primary.tokens_moved : ∀ operand : Primary,
    (operand.moved bytes).tokens = operand.tokens.map (·.moved bytes)
  | .constant _ _ => rfl
  | .slot _ _ => rfl
  | .group _ inner _ => by
      simp [Primary.moved, Primary.tokens, inner.tokens_moved, Token.moved]
  | .call _ _ _ arguments _ => by
      simp [Primary.moved, Primary.tokens, arguments.tokens_moved, Token.moved]

theorem Phrase.tokens_moved : ∀ p : Phrase,
    (p.moved bytes).tokens = p.tokens.map (·.moved bytes)
  | .last operand => operand.tokens_moved
  | .chain operand _ _ rest => by
      simp [Phrase.moved, Phrase.tokens, operand.tokens_moved, rest.tokens_moved, Token.moved]

theorem Arguments.tokens_moved {n : Nat} : ∀ arguments : Arguments n,
    (arguments.moved bytes).tokens = arguments.tokens.map (·.moved bytes)
  | .last argument => argument.tokens_moved
  | .more argument _ rest => by
      simp [Arguments.moved, Arguments.tokens, argument.tokens_moved, rest.tokens_moved,
        Token.moved]

end

mutual

theorem Primary.tree_moved : ∀ operand : Primary, (operand.moved bytes).tree = operand.tree
  | .constant _ _ => rfl
  | .slot _ _ => rfl
  | .group _ inner _ => by simp [Primary.moved, Primary.tree, inner.run_moved]
  | .call _ _ _ arguments _ => by simp [Primary.moved, Primary.tree, arguments.trees_moved]

theorem Phrase.run_moved : ∀ p : Phrase, (p.moved bytes).run = p.run
  | .last operand => by simp [Phrase.moved, Phrase.run, operand.tree_moved]
  | .chain operand _ _ rest => by
      simp [Phrase.moved, Phrase.run, operand.tree_moved, rest.run_moved]

theorem Arguments.trees_moved {n : Nat} : ∀ arguments : Arguments n,
    (arguments.moved bytes).trees = arguments.trees
  | .last argument => by simp [Arguments.moved, Arguments.trees, argument.run_moved]
  | .more argument _ rest => by
      simp [Arguments.moved, Arguments.trees, argument.run_moved, rest.trees_moved]

end

theorem Phrase.tree_moved (p : Phrase) : (p.moved bytes).tree = p.tree := by
  rw [Phrase.tree, p.run_moved, Phrase.tree]

end Moved

/-! ## Trees of trees that are low enough -/

/-- A tree, unless it is too high; then the fault is at a span. -/
def Tree.limited (t : Tree) (span : Span) : Except Fault Tree :=
  if t.height ≤ maxHeight then .ok t else .error (.tooDeep maxHeight span)

/-- Tokens that build a node over low trees at their end make its tree, or stop
at its token. -/
theorem ofPostfix_node {ts : List Token} {trees : List Tree} {token : Token} {t : Tree}
    (operands : Assembly.BuildsAll ts trees) (low : Tree.heightOfAll trees ≤ Tree.maxHeight)
    (makes : Tree.Makes token.meaning trees t) :
    Tree.ofPostfix (ts ++ [token]) = t.limited token.span := by
  unfold Tree.limited
  split
  · rename_i fits
    obtain ⟨operand, rfl, -, runs⟩ := (operands.makes makes).ok fits
    rw [Tree.ofPostfix, runs]
    rfl
  · rename_i high
    rw [Tree.ofPostfix, Assembly.run_node_of_lt operands low makes (Nat.not_le.mp high)]

/-- Two operands and an operator make its node, or stop at the operator. -/
theorem treeOfTokens_infix (lhs rhs : Primary) (o : Operator) (span : Span)
    (lowLeft : lhs.tree.height ≤ Tree.maxHeight) (lowRight : rhs.tree.height ≤ Tree.maxHeight) :
    treeOfTokens (lhs.tokens ++ ⟨.operator o, span⟩ :: rhs.tokens) =
      Tree.limited (.apply o lhs.tree rhs.tree) span := by
  obtain ⟨ls, leftOrder, -, leftRuns⟩ := lhs.run_tokens [] [] []
    (⟨.operator o, span⟩ :: rhs.tokens) (by rintro top ⟨⟩)
  obtain ⟨rs, rightOrder, -, rightRuns⟩ := rhs.run_tokens [⟨.operator o, span⟩] [] ls.reverse []
    (by rintro top ⟨⟩; simp [Token.category, Meaning.category])
  have converted : toPostfix (lhs.tokens ++ ⟨.operator o, span⟩ :: rhs.tokens) =
      .ok (ls ++ rs ++ [⟨.operator o, span⟩]) := by
    rw [List.append_nil] at leftRuns rightRuns
    refine Conversion.toPostfix_eq_ok_iff.mpr
      ⟨⟨[⟨.operator o, span⟩], [], rs.reverse ++ ls.reverse⟩, ?_, ?_, by simp⟩
    · rw [Conversion.start, leftRuns]
      exact rightRuns
    · intro t member
      obtain rfl := List.mem_singleton.mp member
      simp [Token.category, Meaning.category]
  have ordered : Infix.Ordered (lhs.tokens ++ ⟨.operator o, span⟩ :: rhs.tokens) :=
    (Phrase.chain lhs o span (.last rhs)).ordered
  have left := Assembly.builds_postorder lhs.saturated.filled ls leftOrder
  have right := Assembly.builds_postorder rhs.saturated.filled rs rightOrder
  have both : Assembly.BuildsAll (ls ++ rs) [lhs.tree, rhs.tree] := by
    have all := Assembly.BuildsAll.cons left (.cons right .nil)
    rwa [List.append_nil] at all
  have low : Tree.heightOfAll [lhs.tree, rhs.tree] ≤ Tree.maxHeight := by
    simp only [Tree.heightOfAll]
    omega
  have assembled : Tree.ofPostfix (ls ++ rs ++ [⟨.operator o, span⟩]) =
      Tree.limited (.apply o lhs.tree rhs.tree) span :=
    ofPostfix_node both low (.apply o lhs.tree rhs.tree)
  simp only [treeOfTokens, Infix.check_eq_ok_iff.mpr ⟨rfl, ordered⟩, converted, assembled, bind,
    Except.bind]

/-- A routine and its arguments make a call, or stop at the routine. -/
theorem treeOfTokens_call (r : Routine) (name opening : Span) (arguments : Arguments r.arity)
    (closing : Span) (low : Tree.heightOfAll arguments.trees ≤ Tree.maxHeight) :
    treeOfTokens (Primary.call r name opening arguments closing).tokens =
      Tree.limited (.call r arguments.trees) name := by
  obtain ⟨out, order, last, runs⟩ := (Primary.call r name opening arguments closing).run_tokens
    [] [] [] [] (by rintro top ⟨⟩)
  obtain ⟨us, rfl⟩ := List.getLast?_eq_some_iff.mp (last _ rfl)
  have converted : toPostfix (Primary.call r name opening arguments closing).tokens =
      .ok (us ++ [⟨.routine r, name⟩]) := by
    rw [List.append_nil, List.append_nil] at runs
    exact Conversion.toPostfix_eq_ok_iff.mpr ⟨_, runs, by simp, by simp⟩
  have inner : us.map Token.meaning = Tree.postorderOfAll arguments.trees := by
    simpa [Primary.tree, Tree.postorder] using order
  have operands : Assembly.BuildsAll us arguments.trees :=
    Assembly.buildsAll_postorder (fun t member => (arguments.saturated t member).filled) us inner
  have assembled : Tree.ofPostfix (us ++ [⟨.routine r, name⟩]) =
      Tree.limited (.call r arguments.trees) name :=
    ofPostfix_node operands low (.call r arguments.length_trees)
  have ordered := (Primary.call r name opening arguments closing).ordered
  simp only [treeOfTokens, Infix.check_eq_ok_iff.mpr ⟨rfl, ordered⟩, converted, assembled, bind,
    Except.bind]

/-! ## Texts put together -/

namespace Lexer

variable {scope : Scope} {offset : Nat} {previous : Option Category}

/-- Where no operand stands before it, the text of a phrase is read as that phrase
further back. -/
theorem Reads.phrase {cs : List Char} {p : Phrase} (reads : Reads scope cs 0 none p.tokens)
    (due : endsOperand previous = false) :
    Reads scope cs offset previous (p.moved offset).tokens := by
  have moved : Reads scope cs (0 + offset) previous (p.tokens.map (·.moved offset)) :=
    reads.moved due offset
  rwa [Nat.zero_add, ← p.tokens_moved] at moved

/-- The parentheses around a phrase that is further back, read from an offset on;
the text of the phrase has a number of bytes. -/
def groupAt (offset bytes : Nat) (p : Phrase) : Primary :=
  .group ⟨offset, offset + 1⟩ (p.moved (offset + 1))
    ⟨offset + 1 + bytes, offset + 1 + bytes + 1⟩

theorem tree_groupAt (offset bytes : Nat) (p : Phrase) : (groupAt offset bytes p).tree = p.tree :=
  p.tree_moved _

/-- A text that is read as a phrase is read as the same phrase in parentheses. -/
theorem Reads.group (lawful : scope.registry.Lawful) {cs tail : List Char} {p : Phrase}
    {later : List Token} (reads : Reads scope cs 0 none p.tokens)
    (after : Reads scope tail (offset + 1 + Text.byteLength cs + 1) (some .closing) later) :
    Reads scope ('(' :: (cs ++ ')' :: tail)) offset previous
      ((groupAt offset (Text.byteLength cs) p).tokens ++ later) := by
  have inner : Reads scope cs (offset + 1) (some .opening) (p.moved (offset + 1)).tokens :=
    reads.phrase rfl
  have closed : Reads scope (')' :: tail) (offset + 1 + Text.byteLength cs)
      (lastCategory (some .opening) (p.moved (offset + 1)).tokens)
      (⟨.closing, ⟨offset + 1 + Text.byteLength cs, offset + 1 + Text.byteLength cs + 1⟩⟩ ::
        later) :=
    .punctuation lawful rfl rfl after
  have opened : Reads scope ('(' :: (cs ++ ')' :: tail)) offset previous _ :=
    .punctuation lawful rfl rfl (inner.append lawful rfl closed)
  simpa [groupAt, Primary.tokens] using opened

/-- Texts that are read as phrases are read as arguments when commas stand between
them, and a closing parenthesis after the last one. -/
theorem Reads.arguments (lawful : scope.registry.Lawful) {parts : List (List Char × Phrase)}
    (some_ : parts ≠ []) (reads : ∀ part ∈ parts, Reads scope part.1 0 none part.2.tokens)
    {n : Nat} (count : parts.length = n) (offset : Nat) (previous : Option Category)
    (due : endsOperand previous = false) :
    ∃ (arguments : Arguments n) (closing : Span),
      arguments.trees = parts.map (·.2.tree) ∧
        Reads scope ([','].intercalate (parts.map Prod.fst) ++ [')']) offset previous
          (arguments.tokens ++ [⟨.closing, closing⟩]) := by
  induction parts generalizing offset previous n with
  | nil => exact absurd rfl some_
  | cons part parts ih =>
      obtain ⟨cs, p⟩ := part
      have here : Reads scope cs offset previous (p.moved offset).tokens :=
        (reads _ (List.mem_cons_self ..)).phrase due
      subst count
      cases parts with
      | nil =>
          have closed : Reads scope [')'] (offset + Text.byteLength cs)
              (lastCategory previous (p.moved offset).tokens) [_] :=
            .punctuation lawful rfl rfl .nil
          refine ⟨.last (p.moved offset),
            ⟨offset + Text.byteLength cs, offset + Text.byteLength cs + 1⟩, ?_, ?_⟩
          · simp [Arguments.trees, Phrase.run_moved, Phrase.tree]
          · simpa [Arguments.tokens] using here.append lawful rfl closed
      | cons next parts =>
          obtain ⟨rest, closing, trees, later⟩ := ih (by simp)
            (fun other member => reads other (List.mem_cons_of_mem _ member)) rfl
            (offset + Text.byteLength cs + 1) (some .separator) rfl
          have separated : Reads scope (',' :: _) (offset + Text.byteLength cs)
              (lastCategory previous (p.moved offset).tokens) (⟨.separator, _⟩ :: _) :=
            .punctuation lawful rfl rfl later
          refine ⟨.more (p.moved offset)
            ⟨offset + Text.byteLength cs, offset + Text.byteLength cs + 1⟩ rest, closing, ?_, ?_⟩
          · simpa [Arguments.trees, Phrase.run_moved, Phrase.tree] using trees
          · have whole := here.append lawful rfl separated
            simpa [Arguments.tokens] using whole

/-- The name of a routine and, in parentheses, the texts of as many phrases as it
takes are read as a call. -/
theorem Reads.call (lawful : scope.registry.Lawful) {name : String} {r : Routine}
    (found : scope.registry.routine? name = some r) (unshadowed : name ∉ scope.names)
    {parts : List (List Char × Phrase)} (count : parts.length = r.arity)
    (reads : ∀ part ∈ parts, Reads scope part.1 0 none part.2.tokens) :
    ∃ (arguments : Arguments r.arity) (closing : Span),
      arguments.trees = parts.map (·.2.tree) ∧
        Reads scope (name.toList ++ '(' :: ([','].intercalate (parts.map Prod.fst) ++ [')'])) 0 none
          (Primary.call r ⟨0, name.utf8ByteSize⟩ ⟨name.utf8ByteSize, name.utf8ByteSize + 1⟩
            arguments closing).tokens := by
  obtain ⟨-, valid, takes⟩ := lawful.name_of_routine? found
  obtain ⟨arguments, closing, trees, readsArguments⟩ :=
    Reads.arguments lawful (List.length_pos_iff.mp (count ▸ takes)) reads count
      (name.utf8ByteSize + 1) (some .opening) rfl
  have readsName : Reads scope name.toList 0 none [⟨.routine r, ⟨0, 0 + name.utf8ByteSize⟩⟩] :=
    .name valid (resolve?_routine found unshadowed)
  have readsOpening : Reads scope ('(' :: ([','].intercalate (parts.map Prod.fst) ++ [')']))
      name.utf8ByteSize (some .routine) (⟨.opening, ⟨name.utf8ByteSize, name.utf8ByteSize + 1⟩⟩ ::
        (arguments.tokens ++ [⟨.closing, closing⟩])) :=
    .punctuation lawful rfl rfl readsArguments
  rw [← Text.byteLength_toList, ← Nat.zero_add (Text.byteLength name.toList)] at readsOpening
  have whole := readsName.append lawful rfl readsOpening
  refine ⟨arguments, closing, trees, ?_⟩
  simpa [Primary.tokens, Text.byteLength_toList] using whole

end Lexer

namespace Compiled

variable {registry : Registry} {declaration : Declaration} {source : String}

/-- A source that compiles is read as a phrase, and has its tree. -/
theorem exists_phrase_of_compile (lawful : registry.Lawful) {c : Compiled}
    (compiled : compile source declaration registry = .ok c) :
    Variables.validate declaration.toNames = .ok declaration.toNames ∧ ∃ p : Phrase,
      Reads ⟨declaration.toNames, registry⟩ source.toList 0 none p.tokens ∧ p.tree = c.tree ∧
        c.tree.height ≤ Tree.maxHeight := by
  obtain ⟨-, validated, built, -⟩ := compile_eq_ok compiled
  obtain ⟨same, -⟩ := Variables.validate_eq_ok validated
  rw [same] at validated built
  obtain ⟨tokens, tokenized, isTree⟩ := treeOf_eq_ok_iff.mp built
  obtain ⟨p, rfl⟩ := exists_phrase isTree
  obtain ⟨treeEq, low⟩ := Phrase.tree_eq isTree
  exact ⟨validated, p, (Lexer.tokenize_eq_ok_iff lawful).mp tokenized, treeEq, low⟩

/-- A source that is read completely compiles to the tree of its tokens. -/
theorem compile_of_reads (lawful : registry.Lawful) {tokens : List Token}
    (validated : Variables.validate declaration.toNames = .ok declaration.toNames)
    (some_ : source.toList ≠ [])
    (reads : Reads ⟨declaration.toNames, registry⟩ source.toList 0 none tokens) :
    (compile source declaration registry).map Compiled.tree = treeOfTokens tokens := by
  have tokenized : tokenize ⟨declaration.toNames, registry⟩ source.toList = .ok tokens :=
    (Lexer.tokenize_eq_ok_iff lawful).mpr reads
  rw [compile_map_tree validated some_, treeOf, tokenized]
  rfl

/-- Two sources that compile, in parentheses around the symbol of an operator. -/
theorem compile_infix (lawful : registry.Lawful) {symbol : String} {o : Operator}
    (found : registry.operator? symbol = some o) {left right : String} {c d : Compiled}
    (compiledLeft : compile left declaration registry = .ok c)
    (compiledRight : compile right declaration registry = .ok d) :
    (compile ("(" ++ left ++ ")" ++ symbol ++ "(" ++ right ++ ")") declaration registry).map
        Compiled.tree =
      Tree.limited (.apply o c.tree d.tree)
        ⟨left.utf8ByteSize + 2, left.utf8ByteSize + 2 + symbol.utf8ByteSize⟩ := by
  obtain ⟨validated, p, readsLeft, treeLeft, lowLeft⟩ :=
    exists_phrase_of_compile lawful compiledLeft
  obtain ⟨-, q, readsRight, treeRight, lowRight⟩ := exists_phrase_of_compile lawful compiledRight
  have start : 0 + 1 + Text.byteLength left.toList + 1 = left.utf8ByteSize + 2 := by
    rw [Text.byteLength_toList]
    omega
  let stop := left.utf8ByteSize + 2 + symbol.utf8ByteSize
  let lhs := Lexer.groupAt 0 (Text.byteLength left.toList) p
  let rhs := Lexer.groupAt stop (Text.byteLength right.toList) q
  have readsGroup : Reads ⟨declaration.toNames, registry⟩ ('(' :: (right.toList ++ [')'])) stop
      (some .operator) rhs.tokens := by
    simpa [rhs] using readsRight.group lawful .nil
  have readsSymbol : Reads ⟨declaration.toNames, registry⟩
      (symbol.toList ++ '(' :: (right.toList ++ [')'])) (left.utf8ByteSize + 2) (some .closing)
      ([⟨.operator o, ⟨left.utf8ByteSize + 2, stop⟩⟩] ++ rhs.tokens) := by
    refine (Reads.symbol lawful found).append lawful rfl ?_
    rw [Text.byteLength_toList]
    exact readsGroup
  have reads : Reads ⟨declaration.toNames, registry⟩
      ("(" ++ left ++ ")" ++ symbol ++ "(" ++ right ++ ")").toList 0 none
      (lhs.tokens ++ ⟨.operator o, ⟨left.utf8ByteSize + 2, stop⟩⟩ :: rhs.tokens) := by
    simpa using readsLeft.group lawful (start ▸ readsSymbol)
  rw [compile_of_reads lawful validated (by simp) reads, treeOfTokens_infix lhs rhs,
    Lexer.tree_groupAt, Lexer.tree_groupAt, treeLeft, treeRight]
  · rwa [Lexer.tree_groupAt, treeLeft]
  · rwa [Lexer.tree_groupAt, treeRight]

/-- Sources that compile are read as phrases, and have their trees. -/
theorem exists_phrases_of_compile (lawful : registry.Lawful) {parts : List (String × Compiled)}
    (compiled : ∀ part ∈ parts, compile part.1 declaration registry = .ok part.2) :
    ∃ texts : List (List Char × Phrase), texts.map Prod.fst = parts.map (·.1.toList) ∧
      texts.map (·.2.tree) = parts.map (·.2.tree) ∧
      (∀ text ∈ texts, Reads ⟨declaration.toNames, registry⟩ text.1 0 none text.2.tokens) ∧
      ∀ t ∈ texts.map (·.2.tree), t.height ≤ Tree.maxHeight := by
  induction parts with
  | nil => exact ⟨[], rfl, rfl, by simp, by simp⟩
  | cons part parts ih =>
      obtain ⟨-, p, reads, treeEq, low⟩ :=
        exists_phrase_of_compile lawful (compiled part (List.mem_cons_self ..))
      obtain ⟨texts, textsEq, treesEq, allRead, allLow⟩ :=
        ih fun other member => compiled other (List.mem_cons_of_mem _ member)
      refine ⟨(part.1.toList, p) :: texts, by simp [textsEq], by simp [treeEq, treesEq], ?_, ?_⟩
      · exact List.forall_mem_cons.mpr ⟨reads, allRead⟩
      · rw [List.map_cons]
        exact List.forall_mem_cons.mpr ⟨treeEq ▸ low, allLow⟩

/-- Sources that compile, as the arguments of a routine. -/
theorem compile_call (lawful : registry.Lawful) {name : String} {r : Routine}
    (found : registry.routine? name = some r) (unshadowed : name ∉ declaration.toNames)
    {parts : List (String × Compiled)} (count : parts.length = r.arity)
    (compiled : ∀ part ∈ parts, compile part.1 declaration registry = .ok part.2) :
    (compile (name ++ "(" ++ String.intercalate "," (parts.map Prod.fst) ++ ")") declaration
        registry).map Compiled.tree =
      Tree.limited (.call r (parts.map (·.2.tree))) ⟨0, name.utf8ByteSize⟩ := by
  obtain ⟨-, -, takes⟩ := lawful.name_of_routine? found
  obtain ⟨texts, textsEq, treesEq, reads, low⟩ := exists_phrases_of_compile lawful compiled
  have length : texts.length = r.arity := by
    rw [← count, ← List.length_map Prod.fst, textsEq, List.length_map]
  have validated : Variables.validate declaration.toNames = .ok declaration.toNames := by
    obtain ⟨part, member⟩ := List.exists_mem_of_length_pos (count ▸ takes)
    exact (exists_phrase_of_compile lawful (compiled part member)).1
  obtain ⟨arguments, closing, trees, readsTexts⟩ :=
    @Reads.call ⟨declaration.toNames, registry⟩ lawful name r found unshadowed texts length reads
  have readsCall : Reads ⟨declaration.toNames, registry⟩
      (name ++ "(" ++ String.intercalate "," (parts.map Prod.fst) ++ ")").toList 0 none
      (Primary.call r ⟨0, name.utf8ByteSize⟩ ⟨name.utf8ByteSize, name.utf8ByteSize + 1⟩ arguments
        closing).tokens := by
    rw [textsEq] at readsTexts
    simpa [String.toList_intercalate, Function.comp_def] using readsTexts
  rw [compile_of_reads lawful validated (by simp) readsCall, treeOfTokens_call, trees, treesEq]
  rw [trees, Tree.heightOfAll_le_iff]
  exact low

/-- Two sources that compile, in parentheses around the symbol of an operator,
compile to its node over their trees, and sources that compile, with commas
between them in the parentheses of a routine that takes as many, to its call on
their trees. Only the limit of the height can prevent it, and then the fault is at
the symbol or at the name. -/
theorem compile_composes (made : registry.Made) (declaration : Declaration) :
    (∀ (symbol : String) (o : Operator), registry.operator? symbol = some o →
      ∀ (left right : String) (c d : Compiled), compile left declaration registry = .ok c →
        compile right declaration registry = .ok d →
        (compile ("(" ++ left ++ ")" ++ symbol ++ "(" ++ right ++ ")") declaration registry).map
            Compiled.tree =
          Tree.limited (.apply o c.tree d.tree)
            ⟨left.utf8ByteSize + 2, left.utf8ByteSize + 2 + symbol.utf8ByteSize⟩) ∧
    ∀ (name : String) (r : Routine), registry.routine? name = some r →
      name ∉ declaration.toNames → ∀ parts : List (String × Compiled), parts.length = r.arity →
        (∀ part ∈ parts, compile part.1 declaration registry = .ok part.2) →
        (compile (name ++ "(" ++ String.intercalate "," (parts.map Prod.fst) ++ ")") declaration
            registry).map Compiled.tree =
          Tree.limited (.call r (parts.map (·.2.tree))) ⟨0, name.utf8ByteSize⟩ := by
  have lawful := made.lawful
  refine ⟨fun symbol o found left right c d compiledLeft compiledRight => ?_,
    fun name r found unshadowed parts count compiled => ?_⟩
  · exact compile_infix lawful found compiledLeft compiledRight
  · exact compile_call lawful found unshadowed count compiled

/-- The source `-1` after the operator `-`, and a source that ends with a point. -/
theorem compile_composes_minus : ∃ (minus : Operator) (max : Routine) (c d : Compiled),
    Registry.standard.operator? "-" = some minus ∧ Registry.standard.routine? "max" = some max ∧
      compile "x - 2." (.names ["x"]) .standard = .ok c ∧
      compile "-1" (.names ["x"]) .standard = .ok d ∧
      (compile ("(" ++ "x - 2." ++ ")" ++ "-" ++ "(" ++ "-1" ++ ")") (.names ["x"]) .standard).map
          Compiled.tree =
        Tree.limited (.apply minus c.tree d.tree) ⟨8, 9⟩ ∧
      (compile ("max" ++ "(" ++ String.intercalate "," ["x - 2.", "-1"] ++ ")") (.names ["x"])
          .standard).map Compiled.tree =
        Tree.limited (.call max [c.tree, d.tree]) ⟨0, 3⟩ := by
  have hasMinus : (Registry.standard.operator? "-").isSome = true := by decide +kernel
  have hasMax : (Registry.standard.routine? "max").map Routine.arity = some 2 := by
    decide +kernel
  have first : (compile "x - 2." (.names ["x"]) .standard).isOk = true := by decide +kernel
  have second : (compile "-1" (.names ["x"]) .standard).isOk = true := by decide +kernel
  obtain ⟨minus, foundMinus⟩ := Option.isSome_iff_exists.mp hasMinus
  obtain ⟨max, foundMax, arity⟩ := Option.map_eq_some_iff.mp hasMax
  obtain ⟨c, compiledFirst⟩ := exists_of_isOk first
  obtain ⟨d, compiledSecond⟩ := exists_of_isOk second
  have parts : ∀ part ∈ [("x - 2.", c), ("-1", d)],
      compile part.1 (.names ["x"]) .standard = .ok part.2 := by
    simp [compiledFirst, compiledSecond]
  obtain ⟨infix_, call⟩ := compile_composes .standard (.names ["x"])
  have difference := infix_ "-" minus foundMinus _ _ c d compiledFirst compiledSecond
  have greatest := call "max" max foundMax (by decide) [("x - 2.", c), ("-1", d)] arity.symm parts
  have span : (⟨"x - 2.".utf8ByteSize + 2, "x - 2.".utf8ByteSize + 2 + "-".utf8ByteSize⟩ : Span) =
      ⟨8, 9⟩ := by decide +kernel
  have name : (⟨0, "max".utf8ByteSize⟩ : Span) = ⟨0, 3⟩ := by decide +kernel
  rw [span] at difference
  rw [name] at greatest
  exact ⟨minus, max, c, d, foundMinus, foundMax, compiledFirst, compiledSecond, difference, greatest⟩

end Compiled

end Formula
