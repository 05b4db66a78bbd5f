/-
# Formula.Proofs.Lexer.Alone — the text of one token

What a token means is found out in a larger text: a piece ends where the text behind it
does not belong to it, and a minus may be cut from its number because an operand stands
before it. Yet all of that shows in the text of the token. Read alone, it is one token of
the same meaning (`tokenize_alone`).
-/
import Formula.Proofs.Lexer.Lossless

namespace Formula

set_option autoImplicit false

open Text (byteLength)

/-- The token of the same meaning over its own text and nothing else. -/
def Token.alone (source : List Char) (t : Token) : Token :=
  ⟨t.meaning, ⟨0, byteLength (t.text source)⟩⟩

namespace Lexer

variable {scope : Scope} (lawful : scope.registry.Lawful) {offset : Nat}
  {previous : Option Category}

include lawful

/-- The number behind the minus is a number by itself. -/
theorem lexeme?_digits {digits rest : List Char}
    (here : scope.registry.pattern.lexeme? ('-' :: digits ++ rest) =
      some (.number, '-' :: digits)) :
    scope.registry.pattern.lexeme? (digits ++ rest) = some (.number, digits) := by
  have some_ := digits_ne_nil here
  have number : signedNumber ('-' :: (digits ++ rest)) = '-' :: digits := by
    cases (takes_iff lawful).mpr here with
    | number number => exact (greedy_signedNumber.longest_iff.mp number).2
  rw [signedNumber_minus] at number
  have unsigned : unsignedNumber (digits ++ rest) = digits := by
    split at number
    · cases number
    · exact (List.cons.inj number).2
  have same : signedNumber (digits ++ rest) = unsignedNumber (digits ++ rest) := by
    obtain ⟨d, ds, rfl⟩ := List.exists_cons_of_ne_nil some_
    refine signedNumber_of_ne (fun minus => ?_) _
    -- digits that began with a minus would be no unsigned number
    rcases isUnsigned_unsignedNumber (d :: ds ++ rest) with nothing | isUnsigned
    · rw [unsigned] at nothing
      cases nothing
    · rw [unsigned, minus] at isUnsigned
      exact not_isUnsigned_minus ds isUnsigned
  simp [Pattern.lexeme?, same, unsigned, some_]

/-- A piece that means something with nothing before it is read so. -/
theorem Reads.of_takes {shape : Shape} {piece : List Char} {meaning : Meaning}
    (takes : Takes scope.registry piece shape piece)
    (gives : Gives scope none 0 shape piece (.ok [⟨meaning, ⟨0, 0 + byteLength piece⟩⟩])) :
    Reads scope piece 0 none [⟨meaning, ⟨0, byteLength piece⟩⟩] := by
  rw [Nat.zero_add] at gives
  have made := read_of_gives lawful ⟨[], shape, piece, []⟩ gives
  exact .single ((takes_iff lawful).mp takes) made

/-- The tokens of a piece are read alone, also a minus and the number that it was cut
from. -/
theorem Gives.alone {shape : Shape} {before piece rest source : List Char} {first : List Token}
    (takes : Takes scope.registry (piece ++ rest) shape piece)
    (gives : Gives scope previous (byteLength before) shape piece (.ok first))
    (whole : before ++ piece ++ rest = source) :
    ∀ t ∈ first, Reads scope (t.text source) 0 none [t.alone source] := by
  have taken : Takes scope.registry piece shape piece :=
    takes.of_shorter (List.prefix_append piece rest) (List.prefix_refl piece)
  have text : ∀ meaning : Meaning, Token.text ⟨meaning, ⟨byteLength before,
      byteLength before + byteLength piece⟩⟩ source = piece := fun meaning =>
    Span.Cuts.slice ⟨before, rest, whole, rfl⟩
  have notAfter : ¬ AfterOperand none := by simp [AfterOperand]
  cases gives with
  | literal _ reads =>
      rw [List.forall_mem_singleton, Token.alone, text]
      exact .of_takes lawful taken (.literal (fun signed => notAfter signed.1) reads)
  | name names =>
      rw [List.forall_mem_singleton, Token.alone, text]
      exact .of_takes lawful taken (.name names)
  | mark marks =>
      rw [List.forall_mem_singleton, Token.alone, text]
      exact .of_takes lawful taken (.mark marks)
  | @subtraction digits minus value after found reads =>
      have number : Takes scope.registry digits .number digits := by
        have here := (takes_iff lawful).mp takes
        have unsigned := (takes_iff lawful).mpr (lexeme?_digits lawful here)
        exact unsigned.of_shorter (List.prefix_append digits rest) (List.prefix_refl digits)
      have minusText : Token.text ⟨.operator minus, ⟨byteLength before, byteLength before + 1⟩⟩
          source = ['-'] := by
        refine Span.Cuts.slice ⟨before, digits ++ rest, ?_, rfl⟩
        simpa using whole
      have digitsText : Token.text ⟨.constant value, ⟨byteLength before + 1,
          byteLength before + 1 + byteLength digits⟩⟩ source = digits := by
        refine Span.Cuts.slice ⟨before ++ ['-'], rest, by simpa using whole, ?_⟩
        rw [Text.byteLength_append]
        rfl
      refine List.forall_mem_cons.mpr ⟨?_, List.forall_mem_singleton.mpr ?_⟩
      · rw [Token.alone, minusText]
        exact .symbol lawful found
      · rw [Token.alone, digitsText]
        exact .of_takes lawful number (.literal (fun signed => notAfter signed.1) reads)

theorem Reads.alone {cs : List Char} {tokens : List Token}
    (reads : Reads scope cs offset previous tokens) {before source : List Char}
    (at_ : offset = byteLength before) (whole : before ++ cs = source) :
    ∀ t ∈ tokens, Reads scope (t.text source) 0 none [t.alone source] := by
  induction reads generalizing before with
  | nil => simp
  | @blank c cs offset previous tokens _ _ ih =>
      have next : offset + c.utf8Size = byteLength (before ++ [c]) := by simp [at_]
      exact ih next (by simpa using whole)
  | @token shape lexeme rest offset previous first later here made _ ih =>
      subst at_
      rw [← List.append_assoc] at whole
      have takes := (takes_iff lawful).mpr here
      have gives := @gives_read scope previous (byteLength before) _ ⟨[], shape, lexeme, rest⟩ takes
      rw [made] at gives
      have next : byteLength before + byteLength lexeme = byteLength (before ++ lexeme) := by simp
      exact List.forall_mem_append.mpr ⟨gives.alone lawful takes whole, ih next whole⟩

/-- There is no white space in the text of a token. -/
theorem dark_of_tokenize {source : List Char} {tokens : List Token}
    (tokenized : tokenize scope source = .ok tokens) : ∀ t ∈ tokens, Dark (t.text source) := by
  have scans := (lex_eq_iff lawful).mp (tokenize_eq_ok_iff_lex.mp tokenized)
  obtain ⟨tiled, rest, whole, tiles, -, stops⟩ := scans.cut lawful
  cases stops
  rw [List.append_nil] at whole
  exact (whole ▸ tiles).accounts.dark

/-- The text of a token of a source is read alone as one token that means the same. -/
theorem tokenize_alone {source : List Char} {tokens : List Token}
    (tokenized : tokenize scope source = .ok tokens) :
    ∀ t ∈ tokens, tokenize scope (t.text source) = .ok [t.alone source] := by
  have reads := (tokenize_eq_ok_iff lawful).mp tokenized
  intro t member
  exact (tokenize_eq_ok_iff lawful).mpr (reads.alone lawful rfl (List.nil_append source) t member)

end Lexer

end Formula
