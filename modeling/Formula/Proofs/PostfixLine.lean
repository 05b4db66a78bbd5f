/-
# Formula.Proofs.PostfixLine — the printed postfix form determines the tree

The postfix form is printed as the texts of the tokens with spaces between them. No space
stands in a text, so the line can be taken apart again, and each text is read alone as a
token of the meaning that it has in the source (`Lexer.tokenize_alone`). So the tokens can
be had from the line, all but their places, and on the places no tree depends
(`ofPostfix_placeless`).

What the line shows is therefore the tree (`postfix_line_unambiguous`): where two sources
have the same line, they compile to the same tree, or with the same fault but for its place.
-/
import Formula.CommandLine
import Formula.Proofs.Blame
import Formula.Proofs.Compiling
import Formula.Proofs.Lexer.Alone
import Formula.Proofs.Relabelling

namespace Formula

set_option autoImplicit false

/-! ## Places do not matter -/

/-- All spans forgotten. -/
def Relabelling.placeless : Relabelling := ⟨id, fun _ => ⟨0, 0⟩, fun _ _ => rfl⟩

/-- The fault without its place. -/
def Fault.placeless (fault : Fault) : Fault := Relabelling.placeless.fault fault

/-- The places of the tokens do not matter to their tree, and to a fault only for its place. -/
theorem ofPostfix_placeless (tokens : List Token) :
    (Tree.ofPostfix tokens).mapError Fault.placeless =
      Tree.ofPostfix (tokens.map Relabelling.placeless.token) := by
  rw [Relabelling.ofPostfix_map]
  cases Tree.ofPostfix tokens with
  | error fault => rfl
  | ok t => exact congrArg Except.ok (Relabelling.placeless.tree_of_fixed (fun _ => rfl) t).symm

/-! ## The line -/

/-- The tokens of a source in postfix order, or its first fault. -/
def postfixOf (scope : Scope) (source : List Char) : Except Fault (List Token) := do
  let tokens ← tokenize scope source
  let infixTokens ← Infix.check tokens
  toPostfix infixTokens

/-- The texts of tokens with a space between any two neighbours. -/
def lineOf (source : List Char) (tokens : List Token) : List Char :=
  [' '].intercalate (tokens.map (·.text source))

/-- The tokens of some texts, each read alone. -/
def tokenizeEach (scope : Scope) (texts : List (List Char)) : Except Fault (List Token) :=
  (texts.mapM (tokenize scope)).map List.flatten

section Line

variable {scope : Scope} {source : List Char} {out : List Token}

theorem postfixOf_eq_ok_iff : postfixOf scope source = .ok out ↔
    ∃ tokens, tokenize scope source = .ok tokens ∧ Infix.Ordered tokens ∧
      toPostfix tokens = .ok out := by
  simp only [postfixOf, bind, Except.bind]
  cases tokenize scope source with
  | error fault => simp
  | ok tokens =>
      cases checked : Infix.check tokens with
      | error fault =>
          have disordered : ¬ Infix.Ordered tokens := fun ordered => by
            simp [Infix.check_eq_ok_iff.mpr ⟨rfl, ordered⟩] at checked
          simp [checked, disordered]
      | ok same =>
          obtain ⟨rfl, ordered⟩ := Infix.check_eq_ok_iff.mp checked
          simp [checked, ordered]

theorem treeOf_eq_bind : treeOf scope source = (postfixOf scope source).bind Tree.ofPostfix := by
  simp only [treeOf, treeOfTokens, postfixOf, bind, Except.bind]
  cases tokenize scope source with
  | error fault => rfl
  | ok tokens =>
      dsimp only
      cases Infix.check tokens <;> rfl

/-- The line that is printed for the standard definitions. -/
theorem CommandLine.answerPostfix_of_postfixOf {i : Invocation}
    (converted : postfixOf ⟨(Declaration.text i.declared).toNames, .standard⟩ i.expression.toList =
      .ok out) :
    answerPostfix i = .success (String.ofList (lineOf i.expression.toList out) ++ "\n") := by
  obtain ⟨tokens, tokenized, ordered, converted⟩ := postfixOf_eq_ok_iff.mp converted
  have texts : postfixTexts i =
      .ok (out.map fun t => String.ofList (t.text i.expression.toList)) := by
    simp only [postfixTexts, tokenized, Infix.check_eq_ok_iff.mpr ⟨rfl, ordered⟩, converted, bind,
      Except.bind, pure, Except.pure]
  have line : " ".intercalate (out.map fun t => String.ofList (t.text i.expression.toList)) =
      String.ofList (lineOf i.expression.toList out) := by
    rw [← String.toList_inj, String.toList_intercalate, String.toList_ofList, lineOf]
    simp [Function.comp_def]
  simp only [answerPostfix, texts, line]

/-- An ordered formula has postfix tokens. -/
theorem out_ne_nil {tokens : List Token} (ordered : Infix.Ordered tokens)
    (converted : toPostfix tokens = .ok out) : out ≠ [] := by
  rintro rfl
  obtain ⟨trees, grown, some_⟩ := Conversion.exists_forest ordered converted
  cases grown
  simp at some_

/-- The line can be taken apart at its spaces. -/
theorem splitOn_lineOf (some_ : out ≠ []) (dark : ∀ t ∈ out, Dark (t.text source)) :
    (lineOf source out).splitOn ' ' = out.map (·.text source) := by
  refine List.splitOn_intercalate ' ' (fun text member space => ?_) (by simpa using some_)
  obtain ⟨t, inOut, rfl⟩ := List.mem_map.mp member
  have dark := dark t inOut ' ' space
  exact absurd dark (by decide)

theorem tokenizeEach_texts
    (alone : ∀ t ∈ out, tokenize scope (t.text source) = .ok [t.alone source]) :
    tokenizeEach scope (out.map (·.text source)) = .ok (out.map (·.alone source)) := by
  have each : (out.map (·.text source)).mapM (tokenize scope) =
      .ok (out.map fun t => [t.alone source]) := by
    induction out with
    | nil => rfl
    | cons t out ih =>
        obtain ⟨first, later⟩ := List.forall_mem_cons.mp alone
        simp only [List.map_cons, List.mapM_cons, first, ih later, bind, Except.bind, pure,
          Except.pure]
  rw [tokenizeEach, each, List.map_eq_flatMap (f := Token.alone source), List.flatMap_def]
  rfl

/-- What the tokens of the line say about the source: each text is read alone as one token,
and from these the line gives the tree of the source, or its fault but for the place. -/
structure Shows (scope : Scope) (source : List Char) (out : List Token) : Prop where
  split : (lineOf source out).splitOn ' ' = out.map (·.text source)
  alone : ∀ t ∈ out, tokenize scope (t.text source) = .ok [t.alone source]
  tree : (treeOf scope source).mapError Fault.placeless =
    ((tokenizeEach scope ((lineOf source out).splitOn ' ')).bind Tree.ofPostfix).mapError
      Fault.placeless

theorem shows_of_postfixOf (lawful : scope.registry.Lawful)
    (converted : postfixOf scope source = .ok out) : Shows scope source out := by
  have treeOf_out : treeOf scope source = Tree.ofPostfix out := by
    rw [treeOf_eq_bind, converted]
    rfl
  obtain ⟨tokens, tokenized, ordered, converted⟩ := postfixOf_eq_ok_iff.mp converted
  have member := mem_of_toPostfix converted
  have alone : ∀ t ∈ out, tokenize scope (t.text source) = .ok [t.alone source] :=
    fun t inOut => Lexer.tokenize_alone lawful tokenized t (member t inOut)
  have split : (lineOf source out).splitOn ' ' = out.map (·.text source) :=
    splitOn_lineOf (out_ne_nil ordered converted)
      fun t inOut => Lexer.dark_of_tokenize lawful tokenized t (member t inOut)
  refine ⟨split, alone, ?_⟩
  have same : (out.map (·.alone source)).map Relabelling.placeless.token =
      out.map Relabelling.placeless.token := by
    rw [List.map_map]
    rfl
  calc (treeOf scope source).mapError Fault.placeless
    _ = Tree.ofPostfix (out.map Relabelling.placeless.token) := by
      rw [treeOf_out, ofPostfix_placeless]
    _ = (Tree.ofPostfix (out.map (·.alone source))).mapError Fault.placeless := by
      rw [ofPostfix_placeless, same]
    _ = _ := by
      rw [split, tokenizeEach_texts alone]
      rfl

/-- Where the text of a formula gives tokens in postfix order, it is not empty. -/
theorem source_ne_nil (converted : postfixOf scope source = .ok out) : source ≠ [] := by
  rintro rfl
  obtain ⟨tokens, tokenized, ordered, -⟩ := postfixOf_eq_ok_iff.mp converted
  have nothing : tokenize scope [] = .ok [] := by
    rw [tokenize, lex, Lexer.scan_of_none rfl]
    rfl
  cases nothing.symm.trans tokenized
  obtain ⟨first, isHead, -⟩ := ordered.starts
  cases isHead

end Line

/-- The line that is printed for a formula can be read back. At its spaces it comes apart
into the texts of the tokens, and each text, read alone with the same names and definitions,
is one token with the meaning that it has in the formula. Put together, these give the tree
of the formula, or the same fault but for its place. So two formulas that have the same line
compile to the same tree, or with the same fault but for its place. -/
theorem postfix_line_unambiguous {scope : Scope} (made : scope.registry.Made)
    {source : List Char} {out : List Token} (converted : postfixOf scope source = .ok out) :
    (lineOf source out).splitOn ' ' = out.map (·.text source) ∧
      (∀ t ∈ out, tokenize scope (t.text source) =
        .ok [⟨t.meaning, ⟨0, Text.byteLength (t.text source)⟩⟩]) ∧
      (treeOf scope source).mapError Fault.placeless =
        ((tokenizeEach scope ((lineOf source out).splitOn ' ')).bind Tree.ofPostfix).mapError
          Fault.placeless ∧
      ∀ (other : List Char) (out' : List Token), postfixOf scope other = .ok out' →
        lineOf other out' = lineOf source out →
        (treeOf scope other).mapError Fault.placeless =
            (treeOf scope source).mapError Fault.placeless ∧
          ∀ declaration : Declaration, declaration.toNames = scope.names →
            ((Compiled.compile (String.ofList other) declaration scope.registry).map
                Compiled.tree).mapError Fault.placeless =
              ((Compiled.compile (String.ofList source) declaration scope.registry).map
                Compiled.tree).mapError Fault.placeless := by
  obtain ⟨split, alone, tree⟩ := shows_of_postfixOf made.lawful converted
  refine ⟨split, alone, tree, fun other out' converted' same => ?_⟩
  have trees : (treeOf scope other).mapError Fault.placeless =
      (treeOf scope source).mapError Fault.placeless := by
    rw [tree, (shows_of_postfixOf made.lawful converted').tree, same]
  refine ⟨trees, fun declaration names => ?_⟩
  have some_ := source_ne_nil converted
  have some_' := source_ne_nil converted'
  obtain ⟨_, registry⟩ := scope
  subst names
  rw [Compiled.compile_map_tree_eq_bind (by simpa using some_'),
    Compiled.compile_map_tree_eq_bind (by simpa using some_)]
  cases Variables.validate declaration.toNames with
  | error fault => rfl
  | ok names => simpa [Except.bind] using trees

/-- The minus before the four subtracts, and the one before the two is a sign; on the line each
stands where it can only be read so. The other formula has the same line. -/
theorem postfix_line_unambiguous_minus :
    let scope : Scope := ⟨["a", "b"], .standard⟩
    let source := "a -4*max(b, -2)"
    let other := "a-(4 * max(b,-2))"
    ∃ out out', postfixOf scope source.toList = .ok out ∧ postfixOf scope other.toList = .ok out' ∧
      lineOf source.toList out = "a 4 b -2 max * -".toList ∧
      lineOf other.toList out' = "a 4 b -2 max * -".toList ∧
      (∀ t ∈ out, tokenize scope (t.text source.toList) =
        .ok [⟨t.meaning, ⟨0, Text.byteLength (t.text source.toList)⟩⟩]) ∧
      (treeOf scope other.toList).mapError Fault.placeless =
        (treeOf scope source.toList).mapError Fault.placeless ∧
      CommandLine.answerPostfix ⟨source, [], "a,b", [.debugPostfix]⟩ =
        .success "a 4 b -2 max * -\n" := by
  intro scope source other
  have converts : (postfixOf scope source.toList).isOk = true := by decide +kernel
  have converts' : (postfixOf scope other.toList).isOk = true := by decide +kernel
  have lines : (postfixOf scope source.toList).toOption.map (lineOf source.toList) =
      some "a 4 b -2 max * -".toList := by decide +kernel
  have lines' : (postfixOf scope other.toList).toOption.map (lineOf other.toList) =
      some "a 4 b -2 max * -".toList := by decide +kernel
  obtain ⟨out, converted⟩ := Compiled.exists_of_isOk converts
  obtain ⟨out', converted'⟩ := Compiled.exists_of_isOk converts'
  rw [converted] at lines
  rw [converted'] at lines'
  have line := Option.some.inj lines
  have line' := Option.some.inj lines'
  obtain ⟨-, alone, -, same⟩ := postfix_line_unambiguous (.standard) converted
  refine ⟨out, out', converted, converted', line, line', alone,
    (same _ out' converted' (line'.trans line.symm)).1, ?_⟩
  have names : (Declaration.text "a,b").toNames = ["a", "b"] := by decide +kernel
  have printed := CommandLine.answerPostfix_of_postfixOf
    (i := ⟨source, [], "a,b", [.debugPostfix]⟩) (by rw [names]; exact converted)
  rw [line] at printed
  exact printed

end Formula
