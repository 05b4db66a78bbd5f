/-
# Formula.Proofs.Lexer.Lossless — no text is lost on the way to tokens

Tokens tile a text if it is made of white space and of their pieces, in which there
is no white space (`Tiles`). Then a character is white space or stands in a token,
never both (`Tiles.covers_iff`), and the texts of the tokens are together the text
without its white space (`Tiles.texts`).

A scan that stops at a fault has tiled the text before it. Cut there, the text is
scanned to its end as the same tokens (`Scans.cut`): what is taken at a place
is the longest piece of its kind, and it stays the longest where less follows
(`Takes.of_shorter`).
-/
import Formula.Proofs.Lexer.Scanner

namespace Formula

set_option autoImplicit false

open Text (byteLength)

/-! ## Less text -/

section Shorter

variable {kind : List Char → Prop} {piece text shorter : List Char}

theorem Longest.of_shorter (longest : Longest kind piece text) (short : shorter <+: text)
    (leads : piece <+: shorter) : Longest kind piece shorter where
  ofKind := longest.ofKind
  leads := leads
  longest other ofKind leads := longest.longest other ofKind (leads.trans short)

theorem Lacks.of_shorter (lacks : Lacks kind text) (short : shorter <+: text) :
    Lacks kind shorter :=
  fun other ofKind leads => lacks other ofKind (leads.trans short)

/-- What is taken at the start of a text is taken there as well if the text ends
earlier, but not within the piece. -/
theorem Takes.of_shorter {registry : Registry} {shape : Shape}
    (takes : Takes registry text shape piece) (short : shorter <+: text)
    (leads : piece <+: shorter) : Takes registry shorter shape piece := by
  cases takes with
  | number number => exact .number (number.of_shorter short leads)
  | word noNumber word => exact .word (noNumber.of_shorter short) (word.of_shorter short leads)
  | symbol noNumber noWord symbol =>
      exact .symbol (noNumber.of_shorter short) (noWord.of_shorter short)
        (symbol.of_shorter short leads)
  | punctuation noNumber noWord noSymbol _ mark =>
      obtain ⟨after, rfl⟩ := leads
      exact .punctuation (noNumber.of_shorter short) (noWord.of_shorter short)
        (noSymbol.of_shorter short) rfl mark

end Shorter

/-! ## No white space -/

/-- There is no white space in a text. -/
def Dark (cs : List Char) : Prop := ∀ c ∈ cs, Text.isBlank c = false

/-- There is no white space in what a pattern takes, since it would have ended there. -/
theorem Pattern.Lawful.dark {p : Pattern} (lawful : p.Lawful) {text piece : List Char}
    {shape : Shape} (found : p.lexeme? text = some (shape, piece)) : Dark piece := by
  intro c member
  by_contra light
  have blank : Text.isBlank c = true := by simpa using light
  obtain ⟨before, after, rfl⟩ := List.append_of_mem member
  rw [← (Pattern.lexeme?_append found).2, List.append_assoc, List.cons_append] at found
  by_cases nothing : before = []
  · subst nothing
    rw [List.nil_append, lawful.lexeme?_blank blank] at found
    cases found
  · rw [lawful.lexeme?_delimited (by simp [isDelimiter, blank]) nothing] at found
    have whole := congrArg List.length (Pattern.lexeme?_append found).2
    simp only [List.length_append, List.length_cons] at whole
    omega

/-- What is taken is not empty, and there is no white space in it. -/
theorem Takes.dark {registry : Registry} (lawful : registry.Lawful) {text piece : List Char}
    {shape : Shape} (takes : Takes registry text shape piece) : piece ≠ [] ∧ Dark piece := by
  have found := (takes_iff lawful).mp takes
  exact ⟨(Pattern.lexeme?_append found).1, lawful.pattern.dark found⟩

namespace Lexer

theorem Trimmed.of_dark {cs : List Char} (some_ : cs ≠ []) (dark : Dark cs) : Trimmed cs where
  some_ := some_
  first c isHead := dark c (List.mem_of_head? isHead)
  last c isLast := dark c (List.mem_of_getLast? isLast)

/-! ## Tiles -/

/-- Tokens cover a text that starts at an offset: it is made of white space and of
their pieces, and there is no white space in a piece. -/
inductive Tiles : List Char → Nat → List Token → Prop where
  | nil {offset : Nat} : Tiles [] offset []
  | blank {c : Char} {cs : List Char} {offset : Nat} {tokens : List Token} :
    Text.isBlank c = true → Tiles cs (offset + c.utf8Size) tokens → Tiles (c :: cs) offset tokens
  | token {piece rest : List Char} {offset : Nat} {t : Token} {tokens : List Token} :
    piece ≠ [] → Dark piece → t.span = ⟨offset, offset + byteLength piece⟩ →
    Tiles rest (offset + byteLength piece) tokens → Tiles (piece ++ rest) offset (t :: tokens)

section Tiles

variable {cs : List Char} {offset : Nat} {tokens : List Token}

theorem Laid.blank {c : Char} (blank : Text.isBlank c = true)
    (laid : Laid cs (offset + c.utf8Size) tokens) : Laid (c :: cs) offset tokens := by
  cases laid with
  | nil => exact .nil
  | @cons gap piece rest _ t ts blanks some_ span laid =>
      have start : offset + c.utf8Size + byteLength gap = offset + byteLength (c :: gap) :=
        Nat.add_assoc ..
      rw [start] at span laid
      show Laid (c :: gap ++ piece ++ rest) offset (t :: ts)
      exact .cons (List.forall_mem_cons.mpr ⟨blank, blanks⟩) some_ span laid

theorem Tiles.laid (tiles : Tiles cs offset tokens) : Laid cs offset tokens := by
  induction tiles with
  | nil => exact .nil
  | blank blank _ ih => exact ih.blank blank
  | @token piece rest offset t tokens some_ _ span _ ih =>
      show Laid ([] ++ piece ++ rest) offset (t :: tokens)
      exact .cons (by simp) some_ span ih

/-- No token stands over a character before the offset. -/
theorem Laid.not_covers {c : Char} {start : Nat} (laid : Laid cs offset tokens)
    (before : start + c.utf8Size ≤ offset) :
    ¬ ∃ t ∈ tokens, t.span.Covers ⟨start, start + c.utf8Size⟩ := by
  rintro ⟨t, member, covers⟩
  have positive := Char.utf8Size_pos c
  have low := (laid.bounds t member).1
  have starts : t.span.start ≤ start := covers.1
  omega

/-- A character of two texts is one of the first or one of the second. -/
theorem within_or_beyond {before after piece rest : List Char} {c : Char}
    (split : before ++ c :: after = piece ++ rest) :
    (∃ inside, before ++ c :: inside = piece) ∨
      ∃ between, piece ++ between = before ∧ between ++ c :: after = rest := by
  rcases List.append_eq_append_iff.mp split with ⟨tail, rfl, same⟩ | ⟨between, rfl, same⟩
  · rcases List.cons_eq_append_iff.mp same with ⟨rfl, rfl⟩ | ⟨inside, rfl, -⟩
    · exact .inr ⟨[], by simp, rfl⟩
    · exact .inl ⟨inside, rfl⟩
  · exact .inr ⟨between, rfl, same.symm⟩

/-- A character is outside of white space exactly if a token stands over it. -/
theorem Tiles.covers_iff (tiles : Tiles cs offset tokens) {before after : List Char} {c : Char}
    (split : before ++ c :: after = cs) :
    Text.isBlank c = false ↔ ∃ t ∈ tokens,
      t.span.Covers ⟨offset + byteLength before, offset + byteLength before + c.utf8Size⟩ := by
  induction tiles generalizing before with
  | nil => simp at split
  | @blank d cs offset tokens blank tiles ih =>
      cases before with
      | nil =>
          obtain ⟨rfl, -⟩ := List.cons.inj split
          have none_ := tiles.laid.not_covers (Nat.le_refl _)
          simpa [blank] using none_
      | cons e before =>
          obtain ⟨rfl, later⟩ := List.cons.inj split
          rw [Text.byteLength_cons, ← Nat.add_assoc]
          exact ih later
  | @token piece rest offset t tokens some_ dark span tiles ih =>
      have positive := Char.utf8Size_pos c
      rw [List.exists_mem_cons_iff, span]
      rcases within_or_beyond split with ⟨inside, rfl⟩ | ⟨between, rfl, later⟩
      · have here : Span.Covers ⟨offset, offset + byteLength (before ++ c :: inside)⟩
            ⟨offset + byteLength before, offset + byteLength before + c.utf8Size⟩ := by
          rw [Text.byteLength_append, Text.byteLength_cons]
          exact ⟨by dsimp only; omega, by dsimp only; omega⟩
        have outside := dark c (List.mem_append_right _ (List.mem_cons_self ..))
        exact iff_of_true outside (.inl here)
      · have ends : ¬ Span.Covers ⟨offset, offset + byteLength piece⟩
            ⟨offset + byteLength (piece ++ between),
              offset + byteLength (piece ++ between) + c.utf8Size⟩ := by
          rintro ⟨-, stops⟩
          rw [Text.byteLength_append] at stops
          dsimp only at stops
          omega
        rw [or_iff_right ends, Text.byteLength_append, ← Nat.add_assoc]
        exact ih later

/-- The texts of the tokens are the text without its white space. -/
theorem Tiles.texts (tiles : Tiles cs offset tokens) {before source : List Char}
    (at_ : offset = byteLength before) (whole : before ++ cs = source) :
    tokens.flatMap (·.text source) = cs.filter (!Text.isBlank ·) := by
  induction tiles generalizing before with
  | nil => rfl
  | @blank c cs offset tokens blank _ ih =>
      have next : offset + c.utf8Size = byteLength (before ++ [c]) := by simp [at_]
      rw [List.filter_cons_of_neg (by simp [blank])]
      exact ih next (by simpa using whole)
  | @token piece rest offset t tokens _ dark span _ ih =>
      subst at_
      have next : byteLength before + byteLength piece = byteLength (before ++ piece) := by simp
      rw [← List.append_assoc] at whole
      have text : t.text source = piece := Span.Cuts.slice ⟨before, rest, whole, span⟩
      have kept : piece.filter (!Text.isBlank ·) = piece :=
        List.filter_eq_self.mpr fun c member => by simp [dark c member]
      rw [List.flatMap_cons, text, ih next whole, List.filter_append, kept]

end Tiles

/-! ## Cutting at the fault -/

/-- The rest of a text, which starts at an offset, is nothing or starts with the text
at fault. -/
inductive Stops : List Char → Nat → Option Fault → Prop where
  | finished {offset : Nat} : Stops [] offset none
  | fault {found after : List Char} {offset : Nat} : Trimmed found →
    Stops (found ++ after) offset (some (undefined found offset))

section Cut

variable {scope : Scope} {cs : List Char} {offset : Nat} {previous : Option Category}

/-- The tokens that a piece gives tile it, also a minus and the number it is split from. -/
theorem Gives.tiles (lawful : scope.registry.Lawful) {shape : Shape} {piece rest : List Char}
    {first later : List Token} (takes : Takes scope.registry (piece ++ rest) shape piece)
    (gives : Gives scope previous offset shape piece (.ok first))
    (tiles : Tiles rest (offset + byteLength piece) later) :
    Tiles (piece ++ rest) offset (first ++ later) := by
  obtain ⟨some_, dark⟩ := takes.dark lawful
  cases gives with
  | literal => exact .token some_ dark rfl tiles
  | @subtraction digits _ value =>
      obtain ⟨minus, dark⟩ := List.forall_mem_cons.mp dark
      have bytes : offset + byteLength ('-' :: digits) = offset + 1 + byteLength digits :=
        (Nat.add_assoc offset 1 _).symm
      rw [bytes] at tiles
      have number : Tiles (digits ++ rest) (offset + byteLength ['-'])
          (⟨.constant value, ⟨offset + 1, offset + 1 + byteLength digits⟩⟩ :: later) :=
        .token (digits_ne_nil ((takes_iff lawful).mp takes)) dark rfl tiles
      show Tiles (['-'] ++ (digits ++ rest)) offset _
      exact .token (List.cons_ne_nil '-' []) (List.forall_mem_singleton.mpr minus) rfl number
  | name => exact .token some_ dark rfl tiles
  | mark => exact .token some_ dark rfl tiles

/-- What cannot be read is at fault where it starts, as a whole or for its minus. -/
theorem Gives.stops (lawful : scope.registry.Lawful) {shape : Shape} {piece rest : List Char}
    {fault : Fault} (takes : Takes scope.registry (piece ++ rest) shape piece)
    (gives : Gives scope previous offset shape piece (.error fault)) :
    Stops (piece ++ rest) offset (some fault) := by
  obtain ⟨some_, dark⟩ := takes.dark lawful
  cases gives with
  | @noSubtraction digits =>
      have minus := (List.forall_mem_cons.mp dark).1
      show Stops (['-'] ++ (digits ++ rest)) offset (some (undefined ['-'] offset))
      exact .fault (.of_dark (List.cons_ne_nil '-' []) (List.forall_mem_singleton.mpr minus))
  | noName => exact .fault (.of_dark some_ dark)

/-- The tokens of a scan tile the text up to where it stops, and a scan of no more
than that text gives them without a fault. -/
theorem Scans.cut (lawful : scope.registry.Lawful) {lexed : Lexed}
    (scans : Scans scope cs offset previous lexed) :
    ∃ tiled rest, tiled ++ rest = cs ∧ Tiles tiled offset lexed.tokens ∧
      Scans scope tiled offset previous ⟨lexed.tokens, none⟩ ∧
      Stops rest (offset + byteLength tiled) lexed.fault := by
  induction scans with
  | finish => exact ⟨[], [], rfl, .nil, .finish, .finished⟩
  | @blank c cs offset previous lexed blank _ ih =>
      obtain ⟨tiled, rest, rfl, tiles, scans, stops⟩ := ih
      refine ⟨c :: tiled, rest, rfl, .blank blank tiles, .blank blank scans, ?_⟩
      rwa [Text.byteLength_cons, ← Nat.add_assoc]
  | @token shape piece rest offset previous first later takes gives _ ih =>
      obtain ⟨tiled, left, rfl, tiles, scans, stops⟩ := ih
      -- the text that is kept goes on to the end of the piece at least
      rw [← List.append_assoc] at takes
      have taken := takes.of_shorter (List.prefix_append (piece ++ tiled) left)
        (List.prefix_append piece tiled)
      refine ⟨piece ++ tiled, left, List.append_assoc .., gives.tiles lawful taken tiles,
        .token taken gives scans, ?_⟩
      rwa [Text.byteLength_append, ← Nat.add_assoc]
  | meaningless takes gives => exact ⟨[], _, rfl, .nil, .finish, gives.stops lawful takes⟩
  | @stray found blanks rest offset previous _ _ trimmed _ =>
      rw [List.append_assoc]
      exact ⟨[], _, rfl, .nil, .finish, .fault trimmed⟩

end Cut

/-! ## Sources -/

/-- Tokens account for a source: they stand in it one after the other, each over a
piece of it, and stand over every character but the white space. -/
structure Accounts (source : List Char) (tokens : List Token) : Prop where
  nonempty : ∀ t ∈ tokens, t.span.start < t.span.stop
  increasing : tokens.Pairwise fun t u => t.span.start < u.span.start
  disjoint : tokens.Pairwise fun t u => t.span.stop ≤ u.span.start
  /-- Every span starts and stops between characters. -/
  cuts : ∀ t ∈ tokens, t.span.Cuts source (t.text source)
  dark : ∀ t ∈ tokens, Dark (t.text source)
  covers : ∀ before c after, before ++ c :: after = source →
    (Text.isBlank c = false ↔ ∃ t ∈ tokens,
      t.span.Covers ⟨byteLength before, byteLength before + c.utf8Size⟩)
  texts : tokens.flatMap (·.text source) = source.filter (!Text.isBlank ·)

theorem Tiles.accounts {source : List Char} {tokens : List Token}
    (tiles : Tiles source 0 tokens) : Accounts source tokens := by
  have start : 0 = byteLength [] := rfl
  have laid := tiles.laid
  have nonempty : ∀ t ∈ tokens, t.span.start < t.span.stop := fun t member =>
    (laid.bounds t member).2
  have texts : tokens.flatMap (·.text source) = source.filter (!Text.isBlank ·) :=
    tiles.texts start rfl
  refine ⟨nonempty, ?increasing, laid.pairwise, ?cuts, ?dark, ?covers, texts⟩
  case increasing =>
    refine laid.pairwise.imp_of_mem fun {t u} member _ apart => ?_
    exact Nat.lt_of_lt_of_le (nonempty t member) apart
  case cuts =>
    intro t member
    obtain ⟨piece, -, cuts⟩ := laid.cuts start t member
    rw [List.nil_append] at cuts
    rwa [Token.text, cuts.slice]
  case dark =>
    intro t member c inside
    have kept : c ∈ tokens.flatMap (·.text source) := List.mem_flatMap.mpr ⟨t, member, inside⟩
    rw [texts] at kept
    simpa using (List.mem_filter.mp kept).2
  case covers =>
    intro before c after split
    simpa using tiles.covers_iff split

theorem tokenize_eq_ok_iff_lex {scope : Scope} {source : List Char} {tokens : List Token} :
    tokenize scope source = .ok tokens ↔ lex scope source = ⟨tokens, none⟩ := by
  rw [tokenize]
  cases lex scope source with
  | mk read fault => cases fault <;> simp

theorem tokenize_eq_error_iff {scope : Scope} {source : List Char} {fault : Fault} :
    tokenize scope source = .error fault ↔ (lex scope source).fault = some fault := by
  rw [tokenize]
  cases lex scope source with
  | mk read fault => cases fault <;> simp

/-- Against a registry that can be made, no text is lost. If a source is tokenized, its
tokens account for it. Otherwise a piece of it is at fault that has no white space at
either end, and the text before the piece is tokenized as the tokens before the fault. -/
theorem tokens_account_for_source {scope : Scope} (made : scope.registry.Made)
    (source : List Char) :
    (∀ tokens, tokenize scope source = .ok tokens → Accounts source tokens) ∧
      ∀ fault, tokenize scope source = .error fault → ∃ found span,
        fault = .undefinedSymbol (some (String.ofList found, span)) ∧
        span.start < span.stop ∧ span.Cuts source found ∧ Trimmed found ∧
        tokenize scope (Text.takeBytes span.start source) = .ok (lex scope source).tokens := by
  have scans := (lex_eq_iff made.lawful).mp (Eq.refl (lex scope source))
  obtain ⟨tiled, rest, whole, tiles, again, stops⟩ := scans.cut made.lawful
  rw [Nat.zero_add] at stops
  constructor
  · intro tokens tokenized
    rw [tokenize_eq_ok_iff_lex.mp tokenized] at tiles stops
    cases stops
    rw [List.append_nil] at whole
    exact (whole ▸ tiles).accounts
  · intro fault failed
    rw [tokenize_eq_error_iff.mp failed] at stops
    cases stops with
    | @fault found after _ trimmed =>
        have positive := Text.byteLength_positive trimmed.some_
        have inside : tiled ++ found ++ after = source := by rw [List.append_assoc, whole]
        refine ⟨found, _, rfl, ?_, ⟨tiled, after, inside, rfl⟩, trimmed, ?_⟩
        · dsimp only
          omega
        · dsimp only
          rw [← whole, Text.takeBytes_append, whole, tokenize_eq_ok_iff_lex]
          exact (lex_eq_iff made.lawful).mpr again

/-- A minus that subtracts is a token of its own. The white space between two
characters that mean nothing belongs to the fault, and that before them to the text
that is tokenized. -/
theorem tokens_account_for_source_minus :
    let scope : Scope := ⟨["a"], .standard⟩
    scope.registry.Made ∧
      (∃ tokens, tokenize scope "a -4".toList = .ok tokens ∧ tokens.length = 3 ∧
        Accounts "a -4".toList tokens) ∧
      tokenize scope "a -4 é é 2".toList = .error (.undefinedSymbol (some ("é é", ⟨5, 10⟩))) ∧
      tokenize scope "a -4 ".toList = .ok (lex scope "a -4 é é 2".toList).tokens := by
  intro scope
  have made : scope.registry.Made := .standard
  have complete : (lex scope "a -4".toList).fault = none := by decide +kernel
  have three : (lex scope "a -4".toList).tokens.length = 3 := by decide +kernel
  have stops : (lex scope "a -4 é é 2".toList).fault =
      some (.undefinedSymbol (some ("é é", ⟨5, 10⟩))) := by decide +kernel
  have read : tokenize scope "a -4".toList = .ok (lex scope "a -4".toList).tokens := by
    rw [tokenize_eq_ok_iff_lex, ← complete]
  have failed := tokenize_eq_error_iff.mpr stops
  obtain ⟨found, span, same, -, -, -, again⟩ :=
    (tokens_account_for_source made "a -4 é é 2".toList).2 _ failed
  simp only [Fault.undefinedSymbol.injEq, Option.some.injEq, Prod.mk.injEq] at same
  obtain ⟨-, rfl⟩ := same
  have before : Text.takeBytes 5 "a -4 é é 2".toList = "a -4 ".toList := by decide +kernel
  rw [before] at again
  exact ⟨made, ⟨_, read, three, (tokens_account_for_source made _).1 _ read⟩, failed, again⟩

end Lexer

end Formula
