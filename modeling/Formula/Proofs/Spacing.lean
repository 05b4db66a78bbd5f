/-
# Formula.Proofs.Spacing — white space between tokens does not count

White space may be put in wherever no token is cut apart: before, after and between
tokens, also between a minus and the number that it was split from. The tokens are then
read as before, those behind it further back (`Reads.spaced`). What makes this true is
that every token ends before white space in any case (`lexeme?_spaced`), and that it is
the token before and not the text before that decides whether a minus subtracts.

From there on spans are only handed on and joined, so the tree is the same, and a fault
is the same fault where its place has gone (`spacing_insignificant`).
-/
import Formula.Proofs.Compiling
import Formula.Proofs.Lexer.Alone
import Formula.Proofs.Relabelling

namespace Formula

set_option autoImplicit false

open Text (byteLength)

/-! ## Places behind new text -/

/-- The token further back, if it starts at a place or after it. -/
def Token.shifted (place bytes : Nat) (t : Token) : Token :=
  if place ≤ t.span.start then t.moved bytes else t

/-- What covers the same text once some bytes were put in at a place. -/
def Span.widened (place bytes : Nat) (s : Span) : Span where
  start := if place ≤ s.start then s.start + bytes else s.start
  stop := if s.stop ≤ place then s.stop else s.stop + bytes

/-- Both ends keep their order, so a hull becomes the hull. -/
theorem Span.widened_hull (place bytes : Nat) (s t : Span) :
    (s.hull t).widened place bytes = (s.widened place bytes).hull (t.widened place bytes) := by
  have starts : Monotone fun n => if place ≤ n then n + bytes else n := by
    intro m n le
    dsimp only
    split_ifs <;> omega
  have stops : Monotone fun n => if n ≤ place then n else n + bytes := by
    intro m n le
    dsimp only
    split_ifs <;> omega
  exact congrArg₂ Span.mk starts.map_min stops.map_max

/-- All spans as they are after some bytes were put in. -/
def Relabelling.widening (place bytes : Nat) : Relabelling where
  slot := id
  span := Span.widened place bytes
  hull := Span.widened_hull place bytes

/-- A place does not cut a token apart. -/
def Token.Spares (place : Nat) (t : Token) : Prop :=
  ¬ (t.span.start < place ∧ place < t.span.stop)

instance (place : Nat) (t : Token) : Decidable (t.Spares place) :=
  inferInstanceAs (Decidable (¬ (t.span.start < place ∧ place < t.span.stop)))

/-- A token that is not cut apart stays where it is or moves as a whole. -/
theorem Token.shifted_eq {place : Nat} {t : Token} (spares : t.Spares place)
    (nonempty : t.span.start < t.span.stop) (bytes : Nat) :
    t.shifted place bytes = (Relabelling.widening place bytes).token t := by
  obtain ⟨meaning, start, stop⟩ := t
  have same : (Relabelling.widening place bytes).meaning meaning = meaning := by
    cases meaning <;> rfl
  simp only [Spares] at spares nonempty
  rw [Relabelling.token, same]
  simp only [shifted, moved, Span.moved, Relabelling.widening, Span.widened]
  by_cases behind : place ≤ start
  · have ends : ¬ stop ≤ place := by omega
    simp only [behind, ends, if_true, if_false]
  · have ends : stop ≤ place := by omega
    simp only [behind, ends, if_true, if_false]

theorem Token.shifted_zero (place : Nat) (t : Token) : t.shifted place 0 = t := by
  simp [shifted, moved, Span.moved]

theorem Token.shifted_of_lt {place : Nat} {t : Token} (before : t.span.start < place)
    (bytes : Nat) : t.shifted place bytes = t := if_neg (Nat.not_le.mpr before)

theorem Token.shifted_of_le {place : Nat} {t : Token} (behind : place ≤ t.span.start)
    (bytes : Nat) : t.shifted place bytes = t.moved bytes := if_pos behind

/-! ## Reading with more white space -/

namespace Lexer

section Spaced

variable {scope : Scope} (lawful : scope.registry.Lawful) {offset : Nat}
  {previous : Option Category}

include lawful

theorem Reads.le_start {cs : List Char} {tokens : List Token}
    (reads : Reads scope cs offset previous tokens) : ∀ t ∈ tokens, offset ≤ t.span.start := by
  have laid := laid_scan scope cs offset previous
  rw [(reads_iff lawful).mp reads] at laid
  exact fun t member => (laid.bounds t member).1

/-- A text after white space is read as the same tokens further back. -/
theorem Reads.behind {cs blanks : List Char} {tokens : List Token}
    (blank : ∀ c ∈ blanks, Text.isBlank c = true) (reads : Reads scope cs offset previous tokens)
    {place : Nat} (at_ : place ≤ offset) :
    Reads scope (blanks ++ cs) offset previous
      (tokens.map (Token.shifted place (byteLength blanks))) := by
  have moves : tokens.map (Token.shifted place (byteLength blanks)) =
      tokens.map (·.moved (byteLength blanks)) :=
    List.map_congr_left fun t member =>
      Token.shifted_of_le (Nat.le_trans at_ (reads.le_start lawful t member)) _
  rw [moves]
  exact .blanks blank (reads.moved rfl _)

/-- A token stays the same when white space is put in somewhere after it. -/
theorem lexeme?_spaced {shape : Shape} {lexeme between after : List Char} {c : Char}
    (here : scope.registry.pattern.lexeme? (lexeme ++ (between ++ after)) = some (shape, lexeme))
    (blank : Text.isBlank c = true) (tail : List Char) :
    scope.registry.pattern.lexeme? (lexeme ++ (between ++ c :: tail)) = some (shape, lexeme) := by
  have shorter : lexeme ++ between <+: lexeme ++ (between ++ after) := by
    rw [← List.append_assoc]
    exact List.prefix_append ..
  have taken := ((takes_iff lawful).mpr here).of_shorter shorter (List.prefix_append ..)
  have some_ : lexeme ++ between ≠ [] := by simp [(Pattern.lexeme?_append here).1]
  rw [← List.append_assoc,
    lawful.pattern.lexeme?_delimited (by simp [isDelimiter, blank]) some_]
  exact (takes_iff lawful).mp taken

/-- A minus that subtracts may stand apart from the number after it. -/
theorem Reads.halves {c : Char} {blanks digits rest : List Char} {minus : Operator}
    {later : List Token} (blank : ∀ d ∈ c :: blanks, Text.isBlank d = true)
    (here : scope.registry.pattern.lexeme? ('-' :: digits ++ rest) = some (.number, '-' :: digits))
    (found : scope.registry.operator? "-" = some minus)
    (reads : Reads scope rest (offset + 1 + byteLength digits) (some .constant) later) :
    Reads scope ('-' :: (c :: blanks ++ (digits ++ rest))) offset previous
      (List.map (Token.shifted (offset + 1) (byteLength (c :: blanks)))
        ([⟨.operator minus, ⟨offset, offset + 1⟩⟩,
          ⟨.constant (literal digits), ⟨offset + 1, offset + 1 + byteLength digits⟩⟩] ++
            later)) := by
  have number : Reads scope (digits ++ rest) (offset + 1) (some .operator)
      ([⟨.constant (literal digits), ⟨offset + 1, offset + 1 + byteLength digits⟩⟩] ++ later) := by
    refine .token (lexeme?_digits lawful here) ?_ reads
    simp [read, number, endsOperand, whole]
  have symbol : scope.registry.pattern.lexeme? (['-'] ++ (c :: blanks ++ (digits ++ rest))) =
      some (.mark, ['-']) := by
    have alone : scope.registry.pattern.lexeme? (['-'] ++ ([] ++ [])) = some (.mark, ['-']) :=
      lawful.pattern.lexeme?_symbol (lawful.mem_pattern found)
    exact lexeme?_spaced lawful alone (blank c (List.mem_cons_self ..)) _
  have means : mark? scope ['-'] = some (.operator minus) := mark?_symbol lawful found
  have token : read scope previous ⟨[], .mark, ['-'], c :: blanks ++ (digits ++ rest)⟩ offset =
      .ok [⟨.operator minus, ⟨offset, offset + 1⟩⟩] := by
    simp only [read, means, whole]
    rfl
  have stays := Token.shifted_of_lt (t := ⟨.operator minus, ⟨offset, offset + 1⟩⟩)
    (Nat.lt_add_one offset) (byteLength (c :: blanks))
  have apart := Reads.token symbol token (Reads.behind lawful blank number (Nat.le_refl _))
  rw [List.map_append, List.map_cons, stays]
  exact apart

/-- The tokens of a piece stay where they are when text is put in after the piece. -/
theorem Gives.shifted {shape : Shape} {piece text : List Char} {first : List Token}
    (takes : Takes scope.registry text shape piece)
    (gives : Gives scope previous offset shape piece (.ok first)) {place : Nat}
    (after : offset + byteLength piece ≤ place) (bytes : Nat) :
    first.map (Token.shifted place bytes) = first := by
  have positive := Text.byteLength_positive (takes.dark lawful).1
  have stays : ∀ meaning : Meaning, ∀ start stop, start < place →
      Token.shifted place bytes ⟨meaning, ⟨start, stop⟩⟩ = ⟨meaning, ⟨start, stop⟩⟩ :=
    fun meaning start stop before => Token.shifted_of_lt before bytes
  cases gives with
  | literal => simp [stays _ _ _ (show offset < place by omega)]
  | @subtraction digits =>
      have some_ := Text.byteLength_positive (digits_ne_nil ((takes_iff lawful).mp takes))
      rw [Text.byteLength_cons] at after
      have one : Char.utf8Size '-' = 1 := rfl
      simp [stays _ _ _ (show offset < place by omega),
        stays _ _ _ (show offset + 1 < place by omega)]
  | name => simp [stays _ _ _ (show offset < place by omega)]
  | mark => simp [stays _ _ _ (show offset < place by omega)]

omit lawful in
/-- Within a piece there is one place at which no token is cut apart, behind a minus that
subtracts. -/
theorem Gives.spared {shape : Shape} {before tail piece : List Char} {first : List Token}
    (gives : Gives scope previous offset shape piece (.ok first)) (split : before ++ tail = piece)
    (outer : before ≠ []) (inner : tail ≠ [])
    (spares : ∀ t ∈ first, t.Spares (offset + byteLength before)) :
    ∃ minus, shape = .number ∧ before = ['-'] ∧ scope.registry.operator? "-" = some minus ∧
      first = [⟨.operator minus, ⟨offset, offset + 1⟩⟩,
        ⟨.constant (Lexer.literal tail), ⟨offset + 1, offset + 1 + byteLength tail⟩⟩] := by
  have positive := Text.byteLength_positive outer
  have positive' := Text.byteLength_positive inner
  have total : byteLength before + byteLength tail = byteLength piece := by
    rw [← split, Text.byteLength_append]
  have whole : ∀ meaning : Meaning, ¬ Token.Spares (offset + byteLength before)
      ⟨meaning, ⟨offset, offset + byteLength piece⟩⟩ := by
    intro meaning uncut
    simp only [Token.Spares] at uncut
    omega
  cases gives with
  | literal => exact absurd (spares _ (List.mem_singleton_self _)) (whole _)
  | name => exact absurd (spares _ (List.mem_singleton_self _)) (whole _)
  | mark => exact absurd (spares _ (List.mem_singleton_self _)) (whole _)
  | @subtraction digits minus value after found reads =>
      have uncut := spares _ (List.mem_cons_of_mem _ (List.mem_singleton_self _))
      obtain ⟨d, more, rfl⟩ := List.exists_cons_of_ne_nil outer
      rw [List.cons_append, List.cons.injEq] at split
      obtain ⟨rfl, rfl⟩ := split
      have one : Char.utf8Size '-' = 1 := rfl
      rw [Text.byteLength_cons, one] at uncut
      have nothing : more = [] := by
        by_contra some_
        have positive := Text.byteLength_positive some_
        rw [Text.byteLength_append] at uncut
        simp only [Token.Spares] at uncut
        omega
      subst nothing
      rw [← Lexer.literal_of_read reads]
      exact ⟨minus, rfl, rfl, found, rfl⟩

omit lawful in
/-- A place in a text of two parts is inside the first one, or behind it. -/
theorem inside_or_behind {before after piece rest : List Char}
    (split : before ++ after = piece ++ rest) :
    (∃ tail, tail ≠ [] ∧ before ++ tail = piece ∧ after = tail ++ rest) ∨
      ∃ between, before = piece ++ between ∧ rest = between ++ after := by
  rcases List.append_eq_append_iff.mp split with ⟨tail, whole, same⟩ | ⟨between, whole, same⟩
  · by_cases nothing : tail = []
    · subst nothing
      exact .inr ⟨[], by simpa using whole.symm, by simpa using same.symm⟩
    · exact .inl ⟨tail, nothing, whole.symm, same⟩
  · exact .inr ⟨between, whole, same⟩

/-- White space moves the tokens behind it, if it is put in where no token is cut apart,
and does nothing else. -/
theorem Reads.spaced {c : Char} {blanks cs before after : List Char} {tokens : List Token}
    (blank : ∀ d ∈ c :: blanks, Text.isBlank d = true)
    (reads : Reads scope cs offset previous tokens) (split : before ++ after = cs)
    (spares : ∀ t ∈ tokens, t.Spares (offset + byteLength before)) :
    Reads scope (before ++ (c :: blanks ++ after)) offset previous
      (tokens.map (Token.shifted (offset + byteLength before) (byteLength (c :: blanks)))) := by
  induction reads generalizing before with
  | nil =>
      obtain ⟨rfl, rfl⟩ := List.append_eq_nil_iff.mp split
      exact Reads.behind lawful blank .nil (Nat.le_refl _)
  | @blank d cs offset previous tokens light reads ih =>
      cases before with
      | nil =>
          rw [List.nil_append] at split
          subst split
          exact Reads.behind lawful blank (.blank light reads) (Nat.le_refl _)
      | cons e before =>
          rw [List.cons_append, List.cons.injEq] at split
          obtain ⟨rfl, split⟩ := split
          rw [Text.byteLength_cons, ← Nat.add_assoc] at spares ⊢
          exact .blank light (ih split spares)
  | @token shape lexeme rest offset previous first later here made reads ih =>
      by_cases start : before = []
      · subst start
        rw [List.nil_append] at split
        subst split
        exact Reads.behind lawful blank (.token here made reads) (Nat.le_refl _)
      have takes := (takes_iff lawful).mpr here
      have gives := @gives_read scope previous offset _ ⟨[], shape, lexeme, rest⟩ takes
      rw [made] at gives
      rw [List.forall_mem_append] at spares
      rcases inside_or_behind split with ⟨tail, some_, whole, rfl⟩ | ⟨between, rfl, rfl⟩
      · -- the white space parts a minus from its number
        obtain ⟨minus, rfl, rfl, found, rfl⟩ := gives.spared whole start some_ spares.1
        subst whole
        have bytes : offset + byteLength ('-' :: tail) = offset + 1 + byteLength tail :=
          (Nat.add_assoc offset 1 _).symm
        rw [List.singleton_append, bytes] at reads
        exact .halves lawful blank here found reads
      · have spaced := lexeme?_spaced lawful here (blank c (List.mem_cons_self ..))
        rw [List.map_append, gives.shifted lawful takes (by simp)]
        rw [Text.byteLength_append, ← Nat.add_assoc] at spares ⊢
        rw [List.append_assoc]
        exact .token (spaced _) made (ih rfl spares.2)

end Spaced

end Lexer

/-! ## Sources with more white space -/

/-- The tokens of a source into which white space was put. -/
theorem tokenize_spaced {scope : Scope} (lawful : scope.registry.Lawful)
    {before after blanks : List Char} {tokens : List Token}
    (tokenized : tokenize scope (before ++ after) = .ok tokens)
    (uncut : ∀ t ∈ tokens, t.Spares (byteLength before))
    (blank : ∀ c ∈ blanks, Text.isBlank c = true) :
    tokenize scope (before ++ (blanks ++ after)) =
      .ok (tokens.map (Token.shifted (byteLength before) (byteLength blanks))) := by
  cases blanks with
  | nil =>
      have stay : tokens.map (Token.shifted (byteLength before) (byteLength [])) = tokens :=
        List.map_id'' (fun t => t.shifted_zero _) tokens
      rw [stay]
      exact tokenized
  | cons c blanks =>
      have reads := (Lexer.tokenize_eq_ok_iff lawful).mp tokenized
      have uncut' : ∀ t ∈ tokens, t.Spares (0 + byteLength before) := by simpa using uncut
      have spaced := reads.spaced lawful blank rfl uncut'
      rw [Nat.zero_add] at spaced
      exact (Lexer.tokenize_eq_ok_iff lawful).mpr spaced

namespace Compiled

variable {registry : Registry} {declaration : Declaration}

/-- Where two sources give the same tree or fault up to a change of places, so do their
formulas. -/
theorem compile_outcome {f : Relabelling} {source other : List Char} (some_ : source ≠ [])
    (some_' : other ≠ []) (built : treeOf ⟨declaration.toNames, registry⟩ other =
      f.outcome f.tree (treeOf ⟨declaration.toNames, registry⟩ source)) :
    (compile (String.ofList other) declaration registry).map Compiled.tree =
      f.outcome f.tree ((compile (String.ofList source) declaration registry).map
        Compiled.tree) := by
  rw [compile_map_tree_eq_bind (by rwa [String.toList_ofList]),
    compile_map_tree_eq_bind (by rwa [String.toList_ofList]), String.toList_ofList,
    String.toList_ofList]
  cases validated : Variables.validate declaration.toNames with
  | error fault =>
      have stays : f.fault fault = fault := by
        rcases Variables.validate_eq_error validated with ⟨name, rfl⟩ | ⟨name, rfl⟩ <;> rfl
      exact congrArg Except.error stays.symm
  | ok names => exact built

/-- The formulas then have these trees, or there are these two faults. -/
theorem cases_of_outcome {f : Relabelling} {result other : Except Fault Compiled}
    (same : other.map Compiled.tree = f.outcome f.tree (result.map Compiled.tree)) :
    (∃ c d, result = .ok c ∧ other = .ok d ∧ d.tree = f.tree c.tree) ∨
      ∃ fault, result = .error fault ∧ other = .error (f.fault fault) := by
  cases result with
  | error fault =>
      cases other with
      | error found =>
          have moved : found = f.fault fault := Except.error.inj same
          exact .inr ⟨fault, rfl, by rw [moved]⟩
      | ok d => cases same
  | ok c =>
      cases other with
      | error found => cases same
      | ok d => exact .inl ⟨c, d, rfl, rfl, Except.ok.inj same⟩

end Compiled

/-- White space does not count where it cuts no token apart. A source with more of it at
such a place, which is given by the text before it, is tokenized as the same tokens, those
from the place on further back by its length; and if there was any text, both sources
compile to the same tree, or both fail for the same reason. -/
theorem spacing_insignificant {registry : Registry} (made : registry.Made)
    (declaration : Declaration) {before after blanks : List Char} {tokens : List Token}
    (tokenized : tokenize ⟨declaration.toNames, registry⟩ (before ++ after) = .ok tokens)
    (uncut : ∀ t ∈ tokens, t.Spares (byteLength before))
    (blank : ∀ c ∈ blanks, Text.isBlank c = true) :
    tokenize ⟨declaration.toNames, registry⟩ (before ++ (blanks ++ after)) =
        .ok (tokens.map (Token.shifted (byteLength before) (byteLength blanks))) ∧
      (before ++ after ≠ [] →
        (∃ c d, Compiled.compile (String.ofList (before ++ after)) declaration registry = .ok c ∧
          Compiled.compile (String.ofList (before ++ (blanks ++ after))) declaration registry =
            .ok d ∧ d.tree = c.tree) ∨
        ∃ fault moved, Compiled.compile (String.ofList (before ++ after)) declaration registry =
            .error fault ∧
          Compiled.compile (String.ofList (before ++ (blanks ++ after))) declaration registry =
            .error moved ∧
          moved = (Relabelling.widening (byteLength before) (byteLength blanks)).fault fault ∧
          moved.code = fault.code) := by
  have again := tokenize_spaced made.lawful tokenized uncut blank
  refine ⟨again, fun some_ => ?_⟩
  generalize byteLength before = place at again uncut ⊢
  generalize byteLength blanks = bytes at again ⊢
  have laid := Lexer.laid_lex ⟨declaration.toNames, registry⟩ (before ++ after)
  rw [Lexer.tokenize_eq_ok_iff_lex.mp tokenized] at laid
  have relabelled : tokens.map (Token.shifted place bytes) =
      tokens.map (Relabelling.widening place bytes).token :=
    List.map_congr_left fun t member =>
      Token.shifted_eq (uncut t member) (laid.bounds t member).2 _
  have built : treeOf ⟨declaration.toNames, registry⟩ (before ++ (blanks ++ after)) =
      (Relabelling.widening place bytes).outcome (Relabelling.widening place bytes).tree
        (treeOf ⟨declaration.toNames, registry⟩ (before ++ after)) := by
    simp only [treeOf, again, tokenized, bind, Except.bind, relabelled,
      Relabelling.treeOfTokens_map]
  have some' : before ++ (blanks ++ after) ≠ [] := by
    intro nothing
    simp_all
  rcases Compiled.cases_of_outcome (Compiled.compile_outcome some_ some' built) with
    ⟨c, d, compiled, compiled', same⟩ | ⟨fault, failed, moved⟩
  · have fixed := (Relabelling.widening place bytes).tree_of_fixed (fun _ => rfl) c.tree
    exact .inl ⟨c, d, compiled, compiled', same.trans fixed⟩
  · exact .inr ⟨fault, _, failed, moved, rfl, Relabelling.code_fault _ fault⟩

/-- White space may part a minus that subtracts from its number. -/
theorem spacing_insignificant_minus :
    let before := ['a', ' ', '-']
    let blanks := [' ', ' ']
    let after := ['4']
    let scope : Scope := ⟨["a"], .standard⟩
    let tokens := (lex scope (before ++ after)).tokens
    scope.registry.Made ∧ tokenize scope (before ++ after) = .ok tokens ∧
      tokens.map Token.span = [⟨0, 1⟩, ⟨2, 3⟩, ⟨3, 4⟩] ∧
      (∀ t ∈ tokens, t.Spares (byteLength before)) ∧
      tokenize scope (before ++ (blanks ++ after)) = .ok (tokens.map (Token.shifted 3 2)) ∧
      ∃ c d, Compiled.compile (String.ofList (before ++ after)) (.names ["a"]) .standard = .ok c ∧
        Compiled.compile (String.ofList (before ++ (blanks ++ after))) (.names ["a"]) .standard =
          .ok d ∧ d.tree = c.tree := by
  intro before blanks after scope tokens
  have made : scope.registry.Made := .standard
  have complete : (lex scope (before ++ after)).fault = none := by decide +kernel
  have spans : tokens.map Token.span = [⟨0, 1⟩, ⟨2, 3⟩, ⟨3, 4⟩] := by decide +kernel
  have uncut : ∀ t ∈ tokens, t.Spares (byteLength before) := by decide +kernel
  have blank : ∀ c ∈ blanks, Text.isBlank c = true := List.all_eq_true.mp (by decide)
  have compiles : (Compiled.compile (String.ofList (before ++ after)) (.names ["a"])
      .standard).isOk = true := by decide +kernel
  have tokenized : tokenize scope (before ++ after) = .ok tokens := by
    rw [Lexer.tokenize_eq_ok_iff_lex, ← complete]
  obtain ⟨spaced, trees⟩ := spacing_insignificant made (.names ["a"]) tokenized uncut blank
  refine ⟨made, tokenized, spans, uncut, spaced, ?_⟩
  rcases trees (List.cons_ne_nil _ _) with same | ⟨fault, _, failed, -⟩
  · exact same
  · rw [failed] at compiles
    cases compiles

end Formula
