/-
# Formula.Proofs.Lexer.Rescoping — one source in two scopes

Two things about a source depend on the scope it is read in: which pieces of it are
symbols, and what the runs of letters in it mean. Only whole runs are looked up, those
with no letter directly before or after them (`IsRun`), since a word is taken as long as
it can be and nothing else that is taken ends with a letter (`Takes.unjoined`).

So a source is read alike in two scopes that agree on the pieces and on the runs that
occur in it, be it for the numbers of slots (`Alike`): the tokens are the same up to
these numbers, and so is the fault, or the tree (`treeOf_of_alike`).
-/
import Formula.Proofs.Lexer.Scanner
import Formula.Proofs.Relabelling

namespace Formula

set_option autoImplicit false

open Text (byteLength)

/-! ## Other slots -/

/-- Other slots for variables, and every token where it was. -/
def Relabelling.ofSlot (slot : Nat → Nat) : Relabelling := ⟨slot, id, fun _ _ => rfl⟩

namespace Relabelling

variable (slot : Nat → Nat)

theorem fault_ofSlot (fault : Fault) : (ofSlot slot).fault fault = fault := by
  cases fault with
  | undefinedSymbol found => cases found <;> rfl
  | _ => rfl

/-- Renaming makes no difference to a failure. -/
theorem outcome_ofSlot {α β : Type} (change : α → β) (result : Except Fault α) :
    (ofSlot slot).outcome change result = result.map change := by
  cases result with
  | error fault => exact congrArg Except.error (fault_ofSlot slot fault)
  | ok a => rfl

theorem meaning_ofSlot_id : (ofSlot id).meaning = id := by
  funext meaning
  cases meaning <;> rfl

theorem token_ofSlot_id : (ofSlot id).token = id := by
  funext t
  rw [token, meaning_ofSlot_id]
  rfl

end Relabelling

/-! ## Runs of letters -/

/-- No run of letters goes on over the place between two texts. -/
def Unjoined (before after : List Char) : Prop :=
  ∀ c ∈ before.getLast?, ∀ d ∈ after.head?, c.isAlpha = true → d.isAlpha = false

/-- A run of letters in a text that goes on at neither end. -/
def IsRun (source run : List Char) : Prop :=
  IsWord run ∧ ∃ before after, before ++ (run ++ after) = source ∧
    (∀ c ∈ before.getLast?, c.isAlpha = false) ∧ ∀ c ∈ after.head?, c.isAlpha = false

/-- Whether there is such a run can be found out place by place. -/
theorem isRun_iff {source run : List Char} : IsRun source run ↔
    run ≠ [] ∧ run.all Char.isAlpha = true ∧ ∃ place < source.length + 1,
      run <+: source.drop place ∧ (source.take place).getLast?.all (!·.isAlpha) = true ∧
      (source.drop (place + run.length)).head?.all (!·.isAlpha) = true := by
  simp only [Option.all_eq_true, Bool.not_eq_true', List.all_eq_true]
  constructor
  · rintro ⟨⟨some_, letters⟩, before, after, rfl, first, last⟩
    refine ⟨some_, letters, before.length, by simp, ?_⟩
    rw [List.drop_left, List.take_left, ← List.append_assoc, ← List.length_append, List.drop_left]
    exact ⟨List.prefix_append run after, first, last⟩
  · rintro ⟨some_, letters, place, -, ⟨after, rest⟩, first, last⟩
    refine ⟨⟨some_, letters⟩, source.take place, after, ?_, first, ?_⟩
    · rw [rest, List.take_append_drop]
    · rwa [← List.drop_drop, ← rest, List.drop_left] at last

instance (source run : List Char) : Decidable (IsRun source run) :=
  decidable_of_iff _ isRun_iff.symm

theorem Unjoined.of_last {before after : List Char} (notLetter : ∀ c ∈ before.getLast?,
    c.isAlpha = false) : Unjoined before after := by
  intro c isLast d _ letter
  rw [notLetter c isLast] at letter
  cases letter

/-- The longest word ends where no letter follows. -/
theorem Longest.word_ends {piece rest : List Char}
    (longest : Longest IsWord piece (piece ++ rest)) : ∀ c ∈ rest.head?, c.isAlpha = false := by
  intro c isHead
  by_contra letter
  obtain ⟨more, rfl⟩ := List.head?_eq_some_iff.mp isHead
  have longer : IsWord (piece ++ [c]) := by
    refine ⟨by simp, fun d member => ?_⟩
    rcases List.mem_append.mp member with inside | last
    · exact longest.ofKind.2 d inside
    · rw [List.mem_singleton.mp last]
      simpa using letter
  have leads : piece ++ [c] <+: piece ++ c :: more := by
    rw [List.prefix_append_right_inj]
    exact List.prefix_append [c] more
  have le := longest.longest _ longer leads
  rw [List.length_append, List.length_singleton] at le
  omega

theorem IsUnsigned.letterless {text : List Char} (number : IsUnsigned text) :
    ∀ c ∈ text, c.isAlpha = false := by
  have digit : ∀ c : Char, c.isDigit = true → c.isAlpha = false := by
    intro c isDigit
    by_contra letter
    rw [(not_of_isAlpha (by simpa using letter)).1] at isDigit
    cases isDigit
  cases number with
  | whole _ digits => exact fun c member => digit c (digits c member)
  | mixed _ digits fraction =>
      intro c member
      rcases List.mem_append.mp member with inside | later
      · exact digit c (digits c inside)
      · rcases List.mem_cons.mp later with rfl | inside
        · decide
        · exact digit c (fraction c inside)
  | fraction _ digits =>
      intro c member
      rcases List.mem_cons.mp member with rfl | inside
      · decide
      · exact digit c (digits c inside)

theorem IsNumeral.letterless {text : List Char} (number : IsNumeral text) :
    ∀ c ∈ text, c.isAlpha = false := by
  cases number with
  | unsigned number => exact number.letterless
  | signed number => exact List.forall_mem_cons.mpr ⟨by decide, number.letterless⟩

/-- No run of letters goes on over the end of what is taken. -/
theorem Takes.unjoined {registry : Registry} (lawful : registry.Lawful) {shape : Shape}
    {piece rest : List Char} (takes : Takes registry (piece ++ rest) shape piece)
    (before : List Char) : Unjoined (before ++ piece) rest := by
  have ends : ∀ other : List Char, other ≠ [] → (∀ c ∈ other, c.isAlpha = false) →
      Unjoined (before ++ other) rest := by
    intro other some_ letterless
    refine .of_last fun c isLast => letterless c ?_
    rw [List.getLast?_append, List.getLast?_eq_some_getLast some_] at isLast
    exact Option.some.inj isLast ▸ List.getLast_mem some_
  have some_ := (Pattern.lexeme?_append ((takes_iff lawful).mp takes)).1
  cases takes with
  | number number => exact ends piece some_ number.ofKind.letterless
  | word _ word => exact fun c _ d isHead _ => word.word_ends d isHead
  | symbol _ _ symbol =>
      refine ends piece some_ fun c member => ?_
      have known := lawful.mem_pattern_iff.mpr symbol.ofKind
      exact (not_of_isOperatorChar (lawful.pattern.chars _ known c member)).2.1
  | @punctuation c _ _ _ _ mark =>
      refine ends [c] some_ fun d member => ?_
      rw [List.mem_singleton.mp member]
      exact (not_of_isDelimiter (by simp [isDelimiter, mark])).2.1

/-- A word that is taken is a whole run of letters. -/
theorem Takes.isRun {registry : Registry} {piece rest before source : List Char}
    (takes : Takes registry (piece ++ rest) .word piece)
    (whole : before ++ (piece ++ rest) = source) (unjoined : Unjoined before (piece ++ rest)) :
    IsRun source piece := by
  cases takes with
  | word _ word =>
      refine ⟨word.ofKind, before, rest, whole, fun c isLast => ?_, word.word_ends⟩
      obtain ⟨d, more, rfl⟩ := List.exists_cons_of_ne_nil word.ofKind.1
      have letter := word.ofKind.2 d (List.mem_cons_self ..)
      by_contra joined
      have apart := unjoined c isLast d rfl (by simpa using joined)
      rw [letter] at apart
      cases apart

/-- What is taken depends on the symbols that a text starts with. -/
theorem Takes.of_symbols {registry other : Registry} {shape : Shape} {piece text : List Char}
    (same : ∀ s, s <+: text → (IsSymbol other s ↔ IsSymbol registry s))
    (takes : Takes registry text shape piece) : Takes other text shape piece := by
  cases takes with
  | number number => exact .number number
  | word noNumber word => exact .word noNumber word
  | symbol noNumber noWord symbol =>
      refine .symbol noNumber noWord ⟨?_, symbol.leads, fun longer ofKind leads => ?_⟩
      · exact (same piece symbol.leads).mpr symbol.ofKind
      · exact symbol.longest longer ((same longer leads).mp ofKind) leads
  | punctuation noNumber noWord noSymbol first mark =>
      refine .punctuation noNumber noWord (fun s ofKind leads => ?_) first mark
      exact noSymbol s ((same s leads).mp ofKind) leads

/-! ## Scopes that agree about a source -/

namespace Lexer

/-- Two scopes agree about a source: the pieces of it are symbols of the same operators,
and the runs of letters in it mean the same up to the slots of variables. -/
structure Alike (slot : Nat → Nat) (source : List Char) (scope other : Scope) : Prop where
  symbols : ∀ s, s <:+: source →
    other.registry.operator? (String.ofList s) = scope.registry.operator? (String.ofList s)
  names : ∀ run, IsRun source run → resolve? other (String.ofList run) =
    (resolve? scope (String.ofList run)).map (Relabelling.ofSlot slot).meaning

namespace Alike

variable {slot : Nat → Nat} {source : List Char} {scope other : Scope}
  (alike : Alike slot source scope other)

include alike

theorem symbols_of_leads {before text s : List Char} (whole : before ++ text = source)
    (leads : s <+: text) : other.registry.operator? (String.ofList s) =
      scope.registry.operator? (String.ofList s) := by
  obtain ⟨after, rfl⟩ := leads
  exact alike.symbols s ⟨before, after, by rw [List.append_assoc, whole]⟩

theorem takes_iff {before text : List Char} (whole : before ++ text = source) {shape : Shape}
    {piece : List Char} :
    Takes other.registry text shape piece ↔ Takes scope.registry text shape piece := by
  have same : ∀ s, s <+: text → (IsSymbol other.registry s ↔ IsSymbol scope.registry s) := by
    intro s leads
    rw [IsSymbol, IsSymbol, alike.symbols_of_leads whole leads]
  exact ⟨.of_symbols fun s leads => (same s leads).symm, .of_symbols same⟩

theorem bare {before text rest : List Char} (whole : before ++ (text ++ rest) = source)
    (bare : Bare scope.registry text rest) : Bare other.registry text rest := by
  intro earlier after split some_ shape piece takes
  have whole' : (before ++ earlier) ++ (after ++ rest) = source := by
    rw [← split] at whole
    simpa using whole
  exact bare earlier after split some_ shape piece ((alike.takes_iff whole').mp takes)

/-- A piece gives the same tokens, up to the slots, or the same fault. -/
theorem gives {before piece rest : List Char} (whole : before ++ (piece ++ rest) = source)
    (unjoined : Unjoined before (piece ++ rest)) {shape : Shape} {previous : Option Category}
    {start : Nat} {result : Except Fault (List Token)}
    (takes : Takes scope.registry (piece ++ rest) shape piece)
    (gives : Gives scope previous start shape piece result) :
    Gives other previous start shape piece
      (result.map (List.map (Relabelling.ofSlot slot).token)) := by
  have symbol : ∀ s, s <+: piece → other.registry.operator? (String.ofList s) =
      scope.registry.operator? (String.ofList s) :=
    fun s leads => alike.symbols_of_leads whole (leads.trans (List.prefix_append piece rest))
  cases gives with
  | literal plain reads => exact .literal plain reads
  | @subtraction digits minus value after found reads =>
      exact .subtraction after ((symbol ['-'] (List.prefix_append ['-'] digits)).trans found) reads
  | @noSubtraction digits after missing =>
      exact .noSubtraction after ((symbol ['-'] (List.prefix_append ['-'] digits)).trans missing)
  | name names =>
      have means := alike.names piece (takes.isRun whole unjoined)
      rw [names_iff.mp names] at means
      exact .name (names_iff.mpr means)
  | noName nameless =>
      have means := alike.names piece (takes.isRun whole unjoined)
      refine .noName fun meaning names => ?_
      rw [names_iff.mp names, eq_comm, Option.map_eq_some_iff] at means
      obtain ⟨before, resolved, -⟩ := means
      exact nameless before (names_iff.mpr resolved)
  | mark marks =>
      cases marks with
      | opening => exact .mark .opening
      | closing => exact .mark .closing
      | separator => exact .mark .separator
      | operator found =>
          exact .mark (.operator ((symbol piece (List.prefix_refl piece)).trans found))

/-- A source is scanned alike, from every place that parts no run of letters. -/
theorem scans (lawful : scope.registry.Lawful) {cs before : List Char} {offset : Nat}
    {previous : Option Category} {lexed : Lexed} (scans : Scans scope cs offset previous lexed)
    (whole : before ++ cs = source) (unjoined : Unjoined before cs) :
    Scans other cs offset previous
      ⟨lexed.tokens.map (Relabelling.ofSlot slot).token, lexed.fault⟩ := by
  induction scans generalizing before with
  | finish => exact .finish
  | @blank c cs offset previous lexed blank _ ih =>
      have notLetter := (not_of_isDelimiter (c := c) (by simp [isDelimiter, blank])).2.1
      have whole' : (before ++ [c]) ++ cs = source := by simpa using whole
      refine .blank blank (ih whole' (.of_last ?_))
      simpa using notLetter
  | @token shape piece rest offset previous first later takes gives _ ih =>
      have whole' : (before ++ piece) ++ rest = source := by rw [List.append_assoc, whole]
      have later := ih whole' (takes.unjoined lawful before)
      have same : (first.map (Relabelling.ofSlot slot).token).getLast?.map Token.category =
          first.getLast?.map Token.category := by
        simp [List.getLast?_map, Function.comp_def]
      rw [List.map_append]
      rw [← same] at later
      exact .token ((alike.takes_iff whole).mpr takes) (alike.gives whole unjoined takes gives)
        later
  | meaningless takes gives =>
      exact .meaningless ((alike.takes_iff whole).mpr takes)
        (alike.gives whole unjoined takes gives)
  | @stray found blanks rest offset previous bare ends trimmed blank =>
      refine .stray (alike.bare whole bare) ?_ trimmed blank
      rcases ends with nothing | ⟨shape, piece, takes⟩
      · exact .inl nothing
      · rw [← List.append_assoc] at whole
        exact .inr ⟨shape, piece, (alike.takes_iff whole).mpr takes⟩

end Alike

end Lexer

/-! ## Sources that are read alike -/

section

variable {slot : Nat → Nat} {source : List Char} {scope other : Scope}
  (alike : Lexer.Alike slot source scope other) (lawful : scope.registry.Lawful)
  (lawful' : other.registry.Lawful)

include alike lawful lawful'

/-- The tokens are the same up to the slots, and so is the fault. -/
theorem lex_of_alike : lex other source =
    ⟨(lex scope source).tokens.map (Relabelling.ofSlot slot).token, (lex scope source).fault⟩ := by
  have scans := (Lexer.lex_eq_iff lawful).mp (Eq.refl (lex scope source))
  have start : Unjoined [] source := .of_last (by simp)
  exact (Lexer.lex_eq_iff lawful').mpr (alike.scans lawful scans rfl start)

theorem tokenize_of_alike : tokenize other source =
    (tokenize scope source).map (List.map (Relabelling.ofSlot slot).token) := by
  rw [tokenize, tokenize, lex_of_alike alike lawful lawful']
  cases lex scope source with
  | mk tokens fault => cases fault <;> rfl

/-- The tree is the same up to the slots, and so is the fault. -/
theorem treeOf_of_alike : treeOf other source =
    (treeOf scope source).map (Relabelling.ofSlot slot).tree := by
  simp only [treeOf, bind, Except.bind, tokenize_of_alike alike lawful lawful']
  cases tokenize scope source with
  | error fault => rfl
  | ok tokens =>
      have built := (Relabelling.ofSlot slot).treeOfTokens_map tokens
      rw [Relabelling.outcome_ofSlot] at built
      exact built

end

end Formula
