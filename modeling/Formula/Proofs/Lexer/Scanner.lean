/-
# Formula.Proofs.Lexer.Scanner — the lexer as a scan from left to right

The lexer looks for the next place where a token starts, and afterwards at what
it skipped. `Scans` tells the same without looking ahead: at white space the
scan goes on, at any other place it takes the piece of text that `Takes` gives
and reads it (`Gives`), and where there is none it stops at the text up to the
next place where something can be taken. The value of a number is what its text is
read as; a text that is not read gives no tokens here.

Every text is scanned in one way, which is what the lexer makes of it
(`scans_iff`). The relation mentions a registry by its lookups only: neither the
order of its definitions nor the pattern that it keeps is in it.
-/
import Formula.Proofs.Lexer.Layout
import Formula.Proofs.Lexer.Literal

namespace Formula.Lexer

set_option autoImplicit false

open Text (byteLength)

/-! ## Meanings -/

/-- What a name stands for: the first variable declared so, else a routine, else a
constant. -/
inductive Names (scope : Scope) (name : String) : Meaning → Prop where
  | slot {index : Nat} : scope.names[index]? = some name →
    (∀ earlier < index, scope.names[earlier]? ≠ some name) → Names scope name (.slot index)
  | routine {r : Routine} : name ∉ scope.names → scope.registry.routine? name = some r →
    Names scope name (.routine r)
  | constant {value : Float} : name ∉ scope.names → scope.registry.routine? name = none →
    scope.registry.constant? name = some value → Names scope name (.constant value)

/-- What a mark stands for. -/
inductive Marks (registry : Registry) : List Char → Meaning → Prop where
  | opening : Marks registry ['('] .opening
  | closing : Marks registry [')'] .closing
  | separator : Marks registry [','] .separator
  | operator {symbol : List Char} {o : Operator} :
    registry.operator? (String.ofList symbol) = some o → Marks registry symbol (.operator o)

/-- The token before is a number, a constant, a variable or a closing parenthesis. -/
def AfterOperand (previous : Option Category) : Prop :=
  previous = some .constant ∨ previous = some .closing

/-- The tokens, or the fault, that a piece of text gives where it starts at a byte
offset and stands after a token of some category. -/
inductive Gives (scope : Scope) (previous : Option Category) (start : Nat) :
    Shape → List Char → Except Fault (List Token) → Prop where
  | literal {text : List Char} {value : Float} :
    ¬ (AfterOperand previous ∧ text.head? = some '-') → Number.read? text = some value →
    Gives scope previous start .number text
      (.ok [⟨.constant value, ⟨start, start + byteLength text⟩⟩])
  | subtraction {digits : List Char} {minus : Operator} {value : Float} :
    AfterOperand previous → scope.registry.operator? "-" = some minus →
    Number.read? digits = some value →
    Gives scope previous start .number ('-' :: digits)
      (.ok [⟨.operator minus, ⟨start, start + 1⟩⟩,
        ⟨.constant value, ⟨start + 1, start + 1 + byteLength digits⟩⟩])
  | noSubtraction {digits : List Char} : AfterOperand previous →
    scope.registry.operator? "-" = none →
    Gives scope previous start .number ('-' :: digits) (.error (undefined ['-'] start))
  | name {text : List Char} {meaning : Meaning} : Names scope (String.ofList text) meaning →
    Gives scope previous start .word text (.ok [⟨meaning, ⟨start, start + byteLength text⟩⟩])
  | noName {text : List Char} : (∀ meaning, ¬ Names scope (String.ofList text) meaning) →
    Gives scope previous start .word text (.error (undefined text start))
  | mark {text : List Char} {meaning : Meaning} : Marks scope.registry text meaning →
    Gives scope previous start .mark text (.ok [⟨meaning, ⟨start, start + byteLength text⟩⟩])

/-! ## The scan -/

/-- Nothing can be taken in a text at any place before the rest. -/
def Bare (registry : Registry) (text rest : List Char) : Prop :=
  ∀ before after, before ++ after = text → after ≠ [] →
    ∀ shape piece, ¬ Takes registry (after ++ rest) shape piece

/-- The text that starts at an offset, after a token of some category, gives
tokens, to its end or up to a fault. -/
inductive Scans (scope : Scope) : List Char → Nat → Option Category → Lexed → Prop where
  | finish {offset : Nat} {previous : Option Category} : Scans scope [] offset previous ⟨[], none⟩
  | blank {c : Char} {cs : List Char} {offset : Nat} {previous : Option Category} {lexed : Lexed} :
    Text.isBlank c = true → Scans scope cs (offset + c.utf8Size) previous lexed →
    Scans scope (c :: cs) offset previous lexed
  | token {shape : Shape} {piece rest : List Char} {offset : Nat} {previous : Option Category}
      {first : List Token} {later : Lexed} :
    Takes scope.registry (piece ++ rest) shape piece →
    Gives scope previous offset shape piece (.ok first) →
    Scans scope rest (offset + byteLength piece) (first.getLast?.map Token.category) later →
    Scans scope (piece ++ rest) offset previous ⟨first ++ later.tokens, later.fault⟩
  | meaningless {shape : Shape} {piece rest : List Char} {offset : Nat}
      {previous : Option Category} {fault : Fault} :
    Takes scope.registry (piece ++ rest) shape piece →
    Gives scope previous offset shape piece (.error fault) →
    Scans scope (piece ++ rest) offset previous ⟨[], some fault⟩
  | stray {found blanks rest : List Char} {offset : Nat} {previous : Option Category} :
    Bare scope.registry (found ++ blanks) rest →
    rest = [] ∨ (∃ shape piece, Takes scope.registry rest shape piece) →
    Trimmed found → (∀ c ∈ blanks, Text.isBlank c = true) →
    Scans scope (found ++ blanks ++ rest) offset previous ⟨[], some (undefined found offset)⟩

/-! ## What the lexer makes of a piece -/

section Pieces

variable {scope : Scope} {previous : Option Category} {start : Nat}

theorem findIdx?_name_eq_none_iff {names : List String} {name : String} :
    names.findIdx? (· == name) = none ↔ name ∉ names := by
  rw [List.findIdx?_eq_none_iff]
  constructor
  · exact fun differs member => by simpa using differs name member
  · exact fun absent other member => beq_eq_false_iff_ne.mpr fun same => absent (same ▸ member)

theorem findIdx?_name_eq_some_iff {names : List String} {name : String} {index : Nat} :
    names.findIdx? (· == name) = some index ↔
      names[index]? = some name ∧ ∀ earlier < index, names[earlier]? ≠ some name := by
  rw [List.findIdx?_eq_some_iff_getElem]
  constructor
  · rintro ⟨within, here, first⟩
    refine ⟨by rw [List.getElem?_eq_getElem within, beq_iff_eq.mp here], fun earlier before => ?_⟩
    rw [List.getElem?_eq_getElem (Nat.lt_trans before within)]
    exact fun same => first earlier before (beq_iff_eq.mpr (Option.some.inj same))
  · rintro ⟨here, first⟩
    obtain ⟨within, same⟩ := List.getElem?_eq_some_iff.mp here
    refine ⟨within, beq_iff_eq.mpr same, fun earlier before again => first earlier before ?_⟩
    rw [List.getElem?_eq_getElem (Nat.lt_trans before within), beq_iff_eq.mp again]

theorem names_iff {name : String} {meaning : Meaning} :
    Names scope name meaning ↔ resolve? scope name = some meaning := by
  unfold resolve?
  constructor
  · intro names
    cases names with
    | slot here first => rw [findIdx?_name_eq_some_iff.mpr ⟨here, first⟩]
    | routine free found => simp only [findIdx?_name_eq_none_iff.mpr free, found]
    | constant free noRoutine found =>
        simp only [findIdx?_name_eq_none_iff.mpr free, noRoutine, found, Option.map_some]
  · intro resolved
    split at resolved
    · rename_i index found
      cases resolved
      obtain ⟨here, first⟩ := findIdx?_name_eq_some_iff.mp found
      exact .slot here first
    rename_i free
    replace free := findIdx?_name_eq_none_iff.mp free
    split at resolved
    · cases resolved
      exact .routine free ‹_›
    · obtain ⟨value, found, rfl⟩ := Option.map_eq_some_iff.mp resolved
      exact .constant free ‹_› found

theorem mark?_of_marks (lawful : scope.registry.Lawful) {text : List Char} {meaning : Meaning}
    (marks : Marks scope.registry text meaning) : mark? scope text = some meaning := by
  cases marks with
  | operator found => exact mark?_symbol lawful found
  | _ => rfl

/-- What is taken as a mark means something. -/
theorem exists_marks {text piece : List Char} (takes : Takes scope.registry text .mark piece) :
    ∃ meaning, mark? scope piece = some meaning ∧ Marks scope.registry piece meaning := by
  unfold mark?
  split
  · exact ⟨_, rfl, .opening⟩
  · exact ⟨_, rfl, .closing⟩
  · exact ⟨_, rfl, .separator⟩
  · rename_i notOpening notClosing notSeparator
    cases takes with
    | symbol _ _ symbol =>
        obtain ⟨o, found⟩ := symbol.ofKind
        exact ⟨_, by rw [found]; rfl, .operator found⟩
    | punctuation _ _ _ _ mark =>
        simp only [isPunctuation, Bool.or_eq_true, beq_iff_eq] at mark
        rcases mark with (rfl | rfl) | rfl
        · exact absurd rfl notOpening
        · exact absurd rfl notClosing
        · exact absurd rfl notSeparator

theorem endsOperand_iff : endsOperand previous = true ↔ AfterOperand previous := by
  unfold endsOperand AfterOperand
  split <;> simp_all

/-- The lexer reads a piece as the tokens, or the fault, that it gives. -/
theorem read_of_gives (lawful : scope.registry.Lawful) (hit : Hit)
    {result : Except Fault (List Token)}
    (gives : Gives scope previous start hit.shape hit.lexeme result) :
    read scope previous hit start = result := by
  obtain ⟨skipped, shape, lexeme, rest⟩ := hit
  cases gives with
  | literal plain reads =>
      simp only [read, number]
      split
      · exact absurd ⟨endsOperand_iff.mp ‹_›, rfl⟩ plain
      · rw [literal_of_read reads]
        rfl
  | @subtraction digits _ _ after found reads =>
      have bytes : start + byteLength ('-' :: digits) = start + 1 + byteLength digits :=
        (Nat.add_assoc start 1 _).symm
      simp only [read, number, endsOperand_iff.mpr after, found, bytes, literal_of_read reads]
  | noSubtraction after found => simp only [read, number, endsOperand_iff.mpr after, found]
  | name names => simp only [read, whole, names_iff.mp names]
  | noName nameless =>
      have unresolved : resolve? scope (String.ofList lexeme) = none :=
        Option.eq_none_iff_forall_ne_some.mpr fun meaning => mt names_iff.mpr (nameless meaning)
      simp only [read, whole, unresolved]
  | mark marks => simp only [read, whole, mark?_of_marks lawful marks]

/-- A piece that is taken gives what the lexer reads it as. -/
theorem gives_read {text : List Char} {hit : Hit}
    (takes : Takes scope.registry text hit.shape hit.lexeme) :
    Gives scope previous start hit.shape hit.lexeme (read scope previous hit start) := by
  obtain ⟨skipped, shape, lexeme, rest⟩ := hit
  cases shape with
  | number =>
      -- what is taken for a number is read, with its minus and without
      obtain ⟨signed, unsigned⟩ := denotes_of_numeral takes.isNumeral
      simp only [read, number]
      split
      · rename_i digits after
        replace after := endsOperand_iff.mp after
        split
        · exact .noSubtraction after ‹_›
        · have bytes : start + byteLength ('-' :: digits) = start + 1 + byteLength digits :=
            (Nat.add_assoc start 1 _).symm
          rw [bytes]
          exact .subtraction after ‹_› (unsigned digits rfl).1.read
      · rename_i plain
        refine .literal ?_ signed.read
        rintro ⟨after, minus⟩
        obtain ⟨digits, rfl⟩ := List.head?_eq_some_iff.mp minus
        exact plain digits rfl (endsOperand_iff.mpr after)
  | word =>
      simp only [read, whole]
      split
      · exact .name (names_iff.mpr ‹_›)
      · rename_i unresolved
        refine .noName fun meaning names => ?_
        rw [names_iff, unresolved] at names
        cases names
  | mark =>
      obtain ⟨meaning, means, marks⟩ := exists_marks takes
      simp only [read, whole, means]
      exact .mark marks

end Pieces

/-! ## What the lexer skips -/

section Search

variable {scope : Scope}

theorem bare_nil (registry : Registry) (rest : List Char) : Bare registry [] rest := by
  intro before after split some_
  exact absurd (List.append_eq_nil_iff.mp split).2 some_

theorem bare_cons {registry : Registry} {c : Char} {text rest : List Char} :
    Bare registry (c :: text) rest ↔
      (∀ shape piece, ¬ Takes registry (c :: text ++ rest) shape piece) ∧
        Bare registry text rest := by
  constructor
  · intro bare
    refine ⟨bare [] (c :: text) rfl (List.cons_ne_nil c text), fun before after split => ?_⟩
    exact bare (c :: before) after (by rw [List.cons_append, split])
  · rintro ⟨here, later⟩ before after split some_
    cases before with
    | nil =>
        rw [List.nil_append] at split
        exact split ▸ here
    | cons d before =>
        obtain ⟨-, split⟩ := List.cons.inj split
        exact later before after split some_

theorem lexeme?_eq_none_iff (lawful : scope.registry.Lawful) {text : List Char} :
    scope.registry.pattern.lexeme? text = none ↔
      ∀ shape piece, ¬ Takes scope.registry text shape piece := by
  rw [Option.eq_none_iff_forall_ne_some]
  constructor
  · exact fun none_ shape piece takes => none_ _ ((takes_iff lawful).mp takes)
  · exact fun none_ found there => none_ found.1 found.2 ((takes_iff lawful).mpr there)

/-- Where the search finds a token, it passes over text where nothing can be taken. -/
theorem bare_of_search (lawful : scope.registry.Lawful) {cs : List Char} {hit : Hit}
    (found : scope.registry.pattern.search cs = some hit) :
    Bare scope.registry hit.skipped (hit.lexeme ++ hit.rest) := by
  induction cs generalizing hit with
  | nil => cases found
  | cons c cs ih =>
      unfold Pattern.search at found
      split at found
      · cases found
        exact bare_nil _ _
      · rename_i here
        obtain ⟨next, later, rfl⟩ := Option.map_eq_some_iff.mp found
        refine bare_cons.mpr ⟨?_, ih later⟩
        rw [List.cons_append, ← List.append_assoc, (Pattern.search_append later).2]
        exact (lexeme?_eq_none_iff lawful).mp here

theorem bare_of_search_eq_none (lawful : scope.registry.Lawful) {cs : List Char}
    (nothing : scope.registry.pattern.search cs = none) : Bare scope.registry cs [] := by
  induction cs with
  | nil => exact bare_nil _ _
  | cons c cs ih =>
      unfold Pattern.search at nothing
      split at nothing
      · cases nothing
      · rename_i here
        refine bare_cons.mpr ⟨?_, ih (Option.map_eq_none_iff.mp nothing)⟩
        rw [List.append_nil]
        exact (lexeme?_eq_none_iff lawful).mp here

/-- The search passes over a text where nothing can be taken. -/
theorem search_of_bare (lawful : scope.registry.Lawful) {text rest : List Char}
    (bare : Bare scope.registry text rest) :
    scope.registry.pattern.search (text ++ rest) =
      (scope.registry.pattern.search rest).map fun hit =>
        { hit with skipped := text ++ hit.skipped } := by
  induction text with
  | nil => simp
  | cons c text ih =>
      obtain ⟨here, later⟩ := bare_cons.mp bare
      rw [List.cons_append] at here ⊢
      rw [Pattern.search, (lexeme?_eq_none_iff lawful).mpr here, ih later]
      simp [Function.comp_def]

end Search

/-! ## The lexer scans -/

section Scan

variable {scope : Scope} {offset : Nat} {previous : Option Category}

theorem Scans.blanks {skipped cs : List Char} {lexed : Lexed}
    (blank : ∀ c ∈ skipped, Text.isBlank c = true)
    (scans : Scans scope cs (offset + byteLength skipped) previous lexed) :
    Scans scope (skipped ++ cs) offset previous lexed := by
  induction skipped generalizing offset with
  | nil => exact scans
  | cons c skipped ih =>
      refine .blank (blank c (List.mem_cons_self ..)) (ih ?_ ?_)
      · exact fun d member => blank d (List.mem_cons_of_mem _ member)
      · rwa [Nat.add_assoc, ← Text.byteLength_cons]

/-- Text that is passed over and is not all white space ends the scan. -/
theorem Scans.of_stray {skipped rest : List Char} {fault : Fault}
    (bare : Bare scope.registry skipped rest)
    (ends : rest = [] ∨ ∃ shape piece, Takes scope.registry rest shape piece)
    (strays : stray? skipped offset = some fault) :
    Scans scope (skipped ++ rest) offset previous ⟨[], some fault⟩ := by
  obtain ⟨gap, found, blanks, rfl, gapBlank, trimmed, blank, rfl⟩ := stray?_eq_some_iff.mp strays
  rw [List.append_assoc]
  refine .blanks gapBlank (.stray (fun before after split => ?_) ends trimmed blank)
  exact bare (gap ++ before) after (by rw [List.append_assoc, split])

theorem search_of_takes (lawful : scope.registry.Lawful) {text piece : List Char} {shape : Shape}
    (takes : Takes scope.registry text shape piece) :
    scope.registry.pattern.search text = some ⟨[], shape, piece, text.drop piece.length⟩ := by
  have here := (takes_iff lawful).mp takes
  have whole := (Pattern.lexeme?_append here).2
  rw [← whole] at here
  have found := Pattern.search_of_lexeme? here
  rwa [whole] at found

/-- A text is scanned as the lexer reads it. -/
theorem scan_of_scans (lawful : scope.registry.Lawful) {cs : List Char} {lexed : Lexed}
    (scans : Scans scope cs offset previous lexed) :
    scan scope scope.registry.pattern cs offset previous = lexed := by
  induction scans with
  | finish => exact scan_of_none rfl
  | blank blank _ ih => rw [scan_blank lawful blank, ih]
  | @token shape piece rest offset previous first later takes gives _ ih =>
      have made := read_of_gives lawful ⟨[], shape, piece, rest⟩ gives
      have found := Pattern.search_of_lexeme? ((takes_iff lawful).mp takes)
      rw [scan_of_read found rfl made, lastCategory_of_ne_nil (read_ne_nil made)]
      simp only [Text.byteLength_nil, Nat.add_zero, ih]
  | @meaningless shape piece rest offset previous fault takes gives =>
      have failed := read_of_gives lawful ⟨[], shape, piece, rest⟩ gives
      exact scan_of_error (Pattern.search_of_lexeme? ((takes_iff lawful).mp takes)) rfl failed
  | @stray found blanks rest offset previous bare ends trimmed blank =>
      have strays : stray? (found ++ blanks) offset = some (undefined found offset) :=
        stray?_eq_some_iff.mpr ⟨[], found, blanks, rfl, by simp, trimmed, blank, rfl⟩
      have passes := search_of_bare lawful bare
      rcases ends with rfl | ⟨shape, piece, takes⟩
      · rw [List.append_nil] at passes ⊢
        rw [scan_of_none passes, strays]
      · rw [search_of_takes lawful takes, Option.map_some] at passes
        rw [scan_of_some passes, List.append_nil, strays]

/-- What the lexer reads in a text is a scan of the text. -/
theorem scans_scan (lawful : scope.registry.Lawful) (cs : List Char) (offset : Nat)
    (previous : Option Category) :
    Scans scope cs offset previous (scan scope scope.registry.pattern cs offset previous) := by
  fun_induction scan scope scope.registry.pattern cs offset previous with
  | case1 cs offset previous nothing =>
      cases strays : stray? cs offset with
      | none =>
          rw [← List.append_nil cs]
          exact .blanks (stray?_eq_none_iff.mp strays) .finish
      | some fault =>
          rw [← List.append_nil cs]
          exact .of_stray (bare_of_search_eq_none lawful nothing) (.inl rfl) strays
  | case2 cs offset previous hit found fault strays =>
      have takes := (takes_iff lawful).mpr (Pattern.lexeme?_of_search found)
      rw [← (Pattern.search_append found).2, List.append_assoc]
      exact .of_stray (bare_of_search lawful found) (.inr ⟨_, _, takes⟩) strays
  | case3 cs offset previous hit found blank start fault =>
      rename_i failed
      have takes := (takes_iff lawful).mpr (Pattern.lexeme?_of_search found)
      rw [← (Pattern.search_append found).2, List.append_assoc]
      exact .blanks (stray?_eq_none_iff.mp blank) (.meaningless takes (failed ▸ gives_read takes))
  | case4 cs offset previous hit found blank start first =>
      rename_i made later ih
      have takes := (takes_iff lawful).mpr (Pattern.lexeme?_of_search found)
      rw [← (Pattern.search_append found).2, List.append_assoc]
      exact .blanks (stray?_eq_none_iff.mp blank) (.token takes (made ▸ gives_read takes) ih)

theorem scans_iff (lawful : scope.registry.Lawful) {cs : List Char} {lexed : Lexed} :
    Scans scope cs offset previous lexed ↔
      scan scope scope.registry.pattern cs offset previous = lexed :=
  ⟨scan_of_scans lawful, fun scanned => scanned ▸ scans_scan lawful cs offset previous⟩

theorem lex_eq_iff (lawful : scope.registry.Lawful) {source : List Char} {lexed : Lexed} :
    lex scope source = lexed ↔ Scans scope source 0 none lexed :=
  (scans_iff lawful).symm

end Scan

/-! ## Signs -/

/-- A token that stands after an operand is not a number with its sign. -/
def Unsigned (source : List Char) (previous : Option Category) (token : Token) : Prop :=
  AfterOperand previous → token.category = .constant → (token.text source).head? ≠ some '-'

/-- The first token of a piece is unsigned after an operand, and so are the others
after the tokens before them. -/
theorem unsigned_of_gives {scope : Scope} {previous : Option Category}
    {before piece rest source : List Char} {shape : Shape} {first later : List Token}
    (takes : Takes scope.registry (piece ++ rest) shape piece)
    (gives : Gives scope previous (byteLength before) shape piece (.ok first))
    (whole : before ++ piece ++ rest = source)
    (afterwards : ∀ u ∈ later.head?, Unsigned source (first.getLast?.map Token.category) u)
    (chain : later.IsChain fun t u => Unsigned source (some t.category) u) :
    (∀ u ∈ (first ++ later).head?, Unsigned source previous u) ∧
      (first ++ later).IsChain fun t u => Unsigned source (some t.category) u := by
  have text : ∀ meaning, Token.text ⟨meaning, ⟨byteLength before,
      byteLength before + byteLength piece⟩⟩ source = piece := fun meaning =>
    Span.Cuts.slice ⟨before, rest, whole, rfl⟩
  have notOperand : ¬ AfterOperand (some .operator) := by simp [AfterOperand]
  cases gives with
  | literal plain _ =>
      refine ⟨?_, List.isChain_cons.mpr ⟨afterwards, chain⟩⟩
      rintro u ⟨⟩ after -
      rw [text]
      exact fun minus => plain ⟨after, minus⟩
  | subtraction after found _ =>
      refine ⟨?_, List.isChain_cons.mpr ⟨?_, List.isChain_cons.mpr ⟨afterwards, chain⟩⟩⟩
      · rintro u ⟨⟩ - operator
        cases operator
      · rintro u ⟨⟩ impossible
        exact absurd impossible notOperand
  | name names =>
      refine ⟨?_, List.isChain_cons.mpr ⟨afterwards, chain⟩⟩
      rintro u ⟨⟩ - - minus
      rw [text] at minus
      obtain ⟨letters, rfl⟩ := List.head?_eq_some_iff.mp minus
      cases takes with
      | word _ word =>
          have letter := word.ofKind.2 '-' (List.mem_cons_self ..)
          exact absurd letter (by decide)
  | mark marks =>
      refine ⟨?_, List.isChain_cons.mpr ⟨afterwards, chain⟩⟩
      rintro u ⟨⟩ - constant
      cases marks <;> cases constant

theorem Scans.unsigned {scope : Scope} {cs : List Char} {offset : Nat} {previous : Option Category}
    {lexed : Lexed} (scans : Scans scope cs offset previous lexed) {before source : List Char}
    (at_ : offset = byteLength before) (whole : before ++ cs = source) :
    (∀ u ∈ lexed.tokens.head?, Unsigned source previous u) ∧
      lexed.tokens.IsChain fun t u => Unsigned source (some t.category) u := by
  induction scans generalizing before with
  | finish => simp
  | @blank c cs offset previous lexed _ _ ih =>
      have next : offset + c.utf8Size = byteLength (before ++ [c]) := by simp [at_]
      exact ih next (by simpa using whole)
  | @token shape piece rest offset previous first later takes gives _ ih =>
      subst at_
      rw [← List.append_assoc] at whole
      have next : byteLength before + byteLength piece = byteLength (before ++ piece) := by simp
      obtain ⟨afterwards, chain⟩ := ih next whole
      exact unsigned_of_gives takes gives whole afterwards chain
  | meaningless => simp
  | stray => simp

/-- Against a registry that can be made, a source is tokenized as it is scanned:
the tokens are those of the scan if it comes to the end, and otherwise the fault is
the one that the scan stops at. No number that directly follows an operand is read
with a sign. -/
theorem tokenize_iff_scans {scope : Scope} (made : scope.registry.Made) (source : List Char) :
    (∀ tokens, tokenize scope source = .ok tokens ↔ Scans scope source 0 none ⟨tokens, none⟩) ∧
      (∀ fault, tokenize scope source = .error fault ↔
        ∃ tokens, Scans scope source 0 none ⟨tokens, some fault⟩) ∧
      (lex scope source).tokens.IsChain fun t u => Unsigned source (some t.category) u := by
  have scanned : ∀ lexed, lex scope source = lexed ↔ Scans scope source 0 none lexed :=
    fun _ => lex_eq_iff made.lawful
  refine ⟨fun tokens => ?_, fun fault => ?_, ?_⟩
  · rw [← scanned, tokenize]
    cases lex scope source with
    | mk read fault => cases fault <;> simp
  · simp only [← scanned, tokenize]
    cases lex scope source with
    | mk read fault => cases fault <;> simp
  · have start : 0 = byteLength [] := rfl
    exact (((scanned _).mp rfl).unsigned start rfl).2

/-- The minus after a variable subtracts, the longer of two symbols is read, and a
character of two bytes that means nothing is reported alone. -/
theorem tokenize_iff_scans_power :
    let power : Operator := ⟨"**", 4, .right, Float.pow, false⟩
    let scope : Scope := ⟨["x"], Registry.standard.insertOperator power⟩
    let fault : Fault := .undefinedSymbol (some ("é", ⟨7, 9⟩))
    scope.registry.Made ∧ tokenize scope "x -.5**é 2".toList = .error fault ∧
      ∃ tokens, Scans scope "x -.5**é 2".toList 0 none ⟨tokens, some fault⟩ := by
  intro power scope fault
  have valid : isOperatorSymbol power.symbol = true := by decide +kernel
  have made : scope.registry.Made :=
    .add (d := .operator power) .standard trivial (if_pos valid)
  have failed : tokenize scope "x -.5**é 2".toList = .error fault := by
    have stops : (lex scope "x -.5**é 2".toList).fault = some fault := by decide +kernel
    simp only [tokenize, stops]
  exact ⟨made, failed, ((tokenize_iff_scans made _).2.1 fault).mp failed⟩

end Formula.Lexer
