/-
# Formula.Proofs.Lexer.Reading — reading a text inside a larger one

`Reads` gives rules for reading a text to its end as some tokens; they say what
the lexer does when it finds no fault (`reads_iff`).

By these rules a text is read as the same tokens where it stands in a larger
text, if a delimiter comes after it (`Reads.append`). What stands before it
matters in two ways only: the spans of the tokens move by its length, and a minus
at the start subtracts if an operand stands before it (`Reads.moved`).
-/
import Formula.Lexer
import Formula.Proofs.Lexer.Seam

namespace Formula

set_option autoImplicit false

/-! ## Moving -/

/-- The span that lies further back by some bytes. -/
def Span.moved (s : Span) (bytes : Nat) : Span := ⟨s.start + bytes, s.stop + bytes⟩

def Token.moved (t : Token) (bytes : Nat) : Token := { t with span := t.span.moved bytes }

/-- What is found by the search is the token at the place where it is found. -/
theorem Pattern.lexeme?_of_search {p : Pattern} {cs : List Char} {hit : Hit}
    (found : p.search cs = some hit) :
    p.lexeme? (hit.lexeme ++ hit.rest) = some (hit.shape, hit.lexeme) := by
  induction cs generalizing hit with
  | nil => cases found
  | cons c cs ih =>
      unfold Pattern.search at found
      split at found
      · rename_i shape lexeme here
        cases found
        rw [(lexeme?_append here).2, here]
      · obtain ⟨next, later, rfl⟩ := Option.map_eq_some_iff.mp found
        have there := ih later
        exact there

theorem Pattern.search_of_lexeme? {p : Pattern} {shape : Shape} {lexeme rest : List Char}
    (here : p.lexeme? (lexeme ++ rest) = some (shape, lexeme)) :
    p.search (lexeme ++ rest) = some ⟨[], shape, lexeme, rest⟩ := by
  obtain ⟨c, cs, rfl⟩ := List.exists_cons_of_ne_nil (lexeme?_append here).1
  rw [List.cons_append] at here ⊢
  simp only [Pattern.search, here]
  rw [← List.cons_append, List.drop_left]

namespace Lexer

/-! ## Complete readings -/

/-- The category of the last of some tokens, or of the token before them. -/
def lastCategory (previous : Option Category) (tokens : List Token) : Option Category :=
  (tokens.getLast?.map Token.category).or previous

theorem lastCategory_append (previous : Option Category) (ts us : List Token) :
    lastCategory previous (ts ++ us) = lastCategory (lastCategory previous ts) us := by
  unfold lastCategory
  rw [List.getLast?_append]
  cases us.getLast? <;> simp

/-- The text that starts at an offset, after a token of some category, is read to
its end, as some tokens. -/
inductive Reads (scope : Scope) : List Char → Nat → Option Category → List Token → Prop where
  | nil {offset : Nat} {previous : Option Category} : Reads scope [] offset previous []
  | blank {c : Char} {cs : List Char} {offset : Nat} {previous : Option Category}
      {tokens : List Token} :
    Text.isBlank c = true → Reads scope cs (offset + c.utf8Size) previous tokens →
    Reads scope (c :: cs) offset previous tokens
  | token {shape : Shape} {lexeme rest : List Char} {offset : Nat} {previous : Option Category}
      {first later : List Token} :
    scope.registry.pattern.lexeme? (lexeme ++ rest) = some (shape, lexeme) →
    read scope previous ⟨[], shape, lexeme, rest⟩ offset = .ok first →
    Reads scope rest (offset + Text.byteLength lexeme) (lastCategory previous first) later →
    Reads scope (lexeme ++ rest) offset previous (first ++ later)

variable {scope : Scope} {offset : Nat} {previous : Option Category}

theorem whole_ne_nil {text : List Char} {start : Nat} {meaning? : Option Meaning}
    {tokens : List Token} (made : whole text start meaning? = .ok tokens) : tokens ≠ [] := by
  cases meaning? with
  | none => cases made
  | some meaning =>
      cases made
      simp

/-- What the pattern finds is at least one token. -/
theorem read_ne_nil {hit : Hit} {start : Nat} {tokens : List Token}
    (made : read scope previous hit start = .ok tokens) : tokens ≠ [] := by
  unfold read at made
  split at made
  · unfold number at made
    split at made
    · split at made
      · cases made
      · cases made
        simp
    · exact whole_ne_nil made
  · exact whole_ne_nil made
  · exact whole_ne_nil made

/-- What was skipped is at fault unless it is all white space. -/
theorem stray?_eq_none_iff {skipped : List Char} :
    stray? skipped offset = none ↔ ∀ c ∈ skipped, Text.isBlank c = true := by
  rw [← List.dropWhile_eq_nil_iff, stray?]
  split <;> simp_all

theorem Reads.blanks {skipped cs : List Char} {tokens : List Token}
    (blank : ∀ c ∈ skipped, Text.isBlank c = true)
    (reads : Reads scope cs (offset + Text.byteLength skipped) previous tokens) :
    Reads scope (skipped ++ cs) offset previous tokens := by
  induction skipped generalizing offset with
  | nil => exact reads
  | cons c skipped ih =>
      refine .blank (blank c (List.mem_cons_self ..)) (ih ?_ ?_)
      · exact fun d member => blank d (List.mem_cons_of_mem _ member)
      · rwa [Nat.add_assoc, ← Text.byteLength_cons]

/-! ## Readings and the lexer -/

/-- The category after tokens of which there is at least one. -/
theorem lastCategory_of_ne_nil {tokens : List Token} (some_ : tokens ≠ []) :
    lastCategory previous tokens = tokens.getLast?.map Token.category := by
  rw [lastCategory, List.getLast?_eq_some_getLast some_]
  rfl

section Scan

variable {pattern : Pattern} {cs : List Char}

theorem scan_of_none (nothing : pattern.search cs = none) :
    scan scope pattern cs offset previous = ⟨[], stray? cs offset⟩ := by
  rw [scan]
  split
  · rfl
  · simp_all

theorem scan_of_some {hit : Hit} (found : pattern.search cs = some hit) :
    scan scope pattern cs offset previous =
      match stray? hit.skipped offset with
      | some fault => ⟨[], some fault⟩
      | none =>
        let start := offset + Text.byteLength hit.skipped
        match read scope previous hit start with
        | .error fault => ⟨[], some fault⟩
        | .ok tokens =>
          let later := scan scope pattern hit.rest (start + Text.byteLength hit.lexeme)
            (tokens.getLast?.map Token.category)
          ⟨tokens ++ later.tokens, later.fault⟩ := by
  rw [scan]
  split
  · simp_all
  · rename_i other found'
    obtain rfl := Option.some.inj (found.symm.trans found')
    rfl

/-- The lexer goes on after what it could read. -/
theorem scan_of_read {hit : Hit} {first : List Token} (found : pattern.search cs = some hit)
    (blank : stray? hit.skipped offset = none)
    (made : read scope previous hit (offset + Text.byteLength hit.skipped) = .ok first) :
    scan scope pattern cs offset previous =
      let later := scan scope pattern hit.rest
        (offset + Text.byteLength hit.skipped + Text.byteLength hit.lexeme)
        (lastCategory previous first)
      ⟨first ++ later.tokens, later.fault⟩ := by
  rw [scan_of_some found, blank, lastCategory_of_ne_nil (read_ne_nil made)]
  simp only [made]

theorem scan_of_error {hit : Hit} {fault : Fault} (found : pattern.search cs = some hit)
    (blank : stray? hit.skipped offset = none)
    (failed : read scope previous hit (offset + Text.byteLength hit.skipped) = .error fault) :
    scan scope pattern cs offset previous = ⟨[], some fault⟩ := by
  rw [scan_of_some found, blank]
  simp only [failed]

end Scan

/-- White space at the start is passed over. -/
theorem scan_blank (lawful : scope.registry.Lawful) {c : Char} (blank : Text.isBlank c = true)
    (cs : List Char) :
    scan scope scope.registry.pattern (c :: cs) offset previous =
      scan scope scope.registry.pattern cs (offset + c.utf8Size) previous := by
  have stray : ∀ skipped : List Char,
      stray? (c :: skipped) offset = stray? skipped (offset + c.utf8Size) := by
    intro skipped
    simp only [stray?, List.dropWhile_cons, List.takeWhile_cons, blank, if_true,
      Text.byteLength_cons, Nat.add_assoc]
  have skip : scope.registry.pattern.search (c :: cs) =
      (scope.registry.pattern.search cs).map fun hit =>
        { hit with skipped := c :: hit.skipped } := by
    rw [Pattern.search, lawful.pattern.lexeme?_blank blank cs]
  cases found : scope.registry.pattern.search cs with
  | none =>
      rw [found, Option.map_none] at skip
      rw [scan_of_none skip, scan_of_none found, stray]
  | some hit =>
      rw [found, Option.map_some] at skip
      rw [scan_of_some skip, scan_of_some found, stray, Text.byteLength_cons, ← Nat.add_assoc]
      rfl

/-- A text is read completely when the lexer finds no fault in it. -/
theorem reads_iff (lawful : scope.registry.Lawful) {cs : List Char} {tokens : List Token} :
    Reads scope cs offset previous tokens ↔
      scan scope scope.registry.pattern cs offset previous = ⟨tokens, none⟩ := by
  constructor
  · intro reads
    induction reads with
    | nil => exact scan_of_none rfl
    | blank blank _ ih => rw [scan_blank lawful blank, ih]
    | @token shape lexeme rest offset previous first later here made _ ih =>
        rw [scan_of_read (Pattern.search_of_lexeme? here) rfl made]
        simp only [Text.byteLength_nil, Nat.add_zero, ih]
  · intro scanned
    induction cs, offset, previous using scan.induct scope scope.registry.pattern
        generalizing tokens with
    | case1 cs offset previous nothing =>
        rw [scan_of_none nothing, Lexed.mk.injEq] at scanned
        obtain ⟨rfl, blank⟩ := scanned
        have reads : Reads scope (cs ++ []) offset previous [] :=
          .blanks (stray?_eq_none_iff.mp blank) .nil
        rwa [List.append_nil] at reads
    | case2 cs offset previous hit found fault stray =>
        rw [scan_of_some found, stray] at scanned
        cases scanned
    | case3 cs offset previous hit found stray start fault =>
        rename_i failed
        rw [scan_of_error found stray failed] at scanned
        cases scanned
    | case4 cs offset previous hit found stray start first =>
        rename_i made ih
        rw [scan_of_read found stray made, Lexed.mk.injEq] at scanned
        obtain ⟨rfl, complete⟩ := scanned
        obtain ⟨-, whole⟩ := Pattern.search_append found
        rw [← lastCategory_of_ne_nil (read_ne_nil made)] at ih
        rw [← whole, List.append_assoc]
        refine .blanks (stray?_eq_none_iff.mp stray)
          (.token (Pattern.lexeme?_of_search found) made ?_)
        exact ih (by rw [← complete])

theorem tokenize_eq_ok_iff (lawful : scope.registry.Lawful) {source : List Char}
    {tokens : List Token} :
    tokenize scope source = .ok tokens ↔ Reads scope source 0 none tokens := by
  rw [reads_iff lawful, tokenize, lex]
  generalize scan scope scope.registry.pattern source 0 none = lexed
  obtain ⟨read, fault⟩ := lexed
  cases fault <;> simp

/-! ## Larger texts -/

/-- A text before a delimiter is read as it is alone, and what starts with the
delimiter is read after it. -/
theorem Reads.append (lawful : scope.registry.Lawful) {cs tail : List Char} {c : Char}
    {ts us : List Token} (delimiter : isDelimiter c = true)
    (first : Reads scope cs offset previous ts)
    (later : Reads scope (c :: tail) (offset + Text.byteLength cs) (lastCategory previous ts) us) :
    Reads scope (cs ++ c :: tail) offset previous (ts ++ us) := by
  induction first with
  | nil => exact later
  | blank blank _ ih =>
      rw [Text.byteLength_cons, ← Nat.add_assoc] at later
      exact .blank blank (ih later)
  | @token shape lexeme rest offset previous first others here made _ ih =>
      obtain ⟨some_, -⟩ := Pattern.lexeme?_append here
      rw [Text.byteLength_append, ← Nat.add_assoc, lastCategory_append] at later
      rw [List.append_assoc, List.append_assoc]
      refine .token ?_ made (ih later)
      have whole : lexeme ++ rest ≠ [] := by simp [some_]
      rw [← List.append_assoc, lawful.pattern.lexeme?_delimited delimiter whole, here]

theorem lastCategory_moved (previous : Option Category) (tokens : List Token) (bytes : Nat) :
    lastCategory previous (tokens.map (·.moved bytes)) = lastCategory previous tokens := by
  rw [lastCategory, List.getLast?_map, Option.map_map]
  rfl

theorem whole_moved {text : List Char} {start : Nat} {meaning? : Option Meaning}
    {tokens : List Token} (made : whole text start meaning? = .ok tokens) (bytes : Nat) :
    whole text (start + bytes) meaning? = .ok (tokens.map (·.moved bytes)) := by
  cases meaning? with
  | none => cases made
  | some meaning =>
      cases made
      simp [whole, Token.moved, Span.moved, Nat.add_right_comm]

/-- What is read further back are the same tokens further back. -/
theorem read_moved {previous' : Option Category} {hit : Hit} {start : Nat} {tokens : List Token}
    (made : read scope previous hit start = .ok tokens)
    (same : endsOperand previous' = endsOperand previous) (bytes : Nat) :
    read scope previous' hit (start + bytes) = .ok (tokens.map (·.moved bytes)) := by
  unfold read at made ⊢
  split at made
  · rw [number.eq_def] at made ⊢
    rw [same]
    split at made
    · split at made
      · cases made
      · cases made
        simp [Token.moved, Span.moved, Nat.add_right_comm]
    · exact whole_moved made bytes
  · exact whole_moved made bytes
  · exact whole_moved made bytes

/-- A text that stands further back is read as the same tokens further back, if a
minus at its start means the same there. -/
theorem Reads.moved {cs : List Char} {tokens : List Token}
    (reads : Reads scope cs offset previous tokens) {previous' : Option Category}
    (same : endsOperand previous' = endsOperand previous) (bytes : Nat) :
    Reads scope cs (offset + bytes) previous' (tokens.map (·.moved bytes)) := by
  induction reads generalizing previous' with
  | nil => exact .nil
  | blank blank _ ih =>
      refine .blank blank ?_
      rw [Nat.add_right_comm]
      exact ih same
  | @token shape lexeme rest offset previous first later here made _ ih =>
      rw [List.map_append]
      refine .token here (read_moved made same bytes) ?_
      rw [Nat.add_right_comm, lastCategory_moved]
      refine ih ?_
      obtain ⟨last, isLast⟩ := Option.ne_none_iff_exists'.mp
        (mt List.getLast?_eq_none_iff.mp (read_ne_nil made))
      simp only [lastCategory, isLast, Option.map_some, Option.some_or]

/-! ## Single tokens -/

/-- A text that is one token, and means something as a whole. -/
theorem Reads.single {shape : Shape} {lexeme : List Char} {token : Token}
    (here : scope.registry.pattern.lexeme? lexeme = some (shape, lexeme))
    (made : read scope previous ⟨[], shape, lexeme, []⟩ offset = .ok [token]) :
    Reads scope lexeme offset previous [token] := by
  have reads : Reads scope (lexeme ++ []) offset previous ([token] ++ []) :=
    .token (by rwa [List.append_nil]) made .nil
  rwa [List.append_nil, List.append_nil] at reads

/-- A mark of the grammar is a token, whatever comes after it. -/
theorem Reads.punctuation (lawful : scope.registry.Lawful) {c : Char} {meaning : Meaning}
    {cs : List Char} {tokens : List Token} (mark : isPunctuation c = true)
    (means : mark? scope [c] = some meaning)
    (later : Reads scope cs (offset + 1) (some meaning.category) tokens) :
    Reads scope (c :: cs) offset previous (⟨meaning, ⟨offset, offset + 1⟩⟩ :: tokens) := by
  have bytes : Text.byteLength [c] = 1 := by
    simp only [isPunctuation, Bool.or_eq_true, beq_iff_eq] at mark
    rcases mark with (rfl | rfl) | rfl <;> rfl
  have here : scope.registry.pattern.lexeme? ([c] ++ cs) = some (.mark, [c]) :=
    lawful.pattern.lexeme?_punctuation mark cs
  have made : read scope previous ⟨[], .mark, [c], cs⟩ offset =
      .ok [⟨meaning, ⟨offset, offset + 1⟩⟩] := by
    simp only [read, means, whole, bytes]
  exact .token here made (bytes.symm ▸ later)

/-- No operator has a mark of the grammar for its symbol. -/
theorem mark?_symbol (lawful : scope.registry.Lawful) {symbol : List Char} {o : Operator}
    (found : scope.registry.operator? (String.ofList symbol) = some o) :
    mark? scope symbol = some (.operator o) := by
  have known := lawful.mem_pattern found
  rw [String.toList_ofList] at known
  have notMark : ∀ c, isPunctuation c = true → symbol ≠ [c] := by
    intro c mark same
    have valid := lawful.pattern.chars _ known c (by simp [same])
    have delimiter := (not_of_isOperatorChar valid).2.2.2
    simp [isDelimiter, mark] at delimiter
  unfold mark?
  split
  · exact absurd rfl (notMark _ rfl)
  · exact absurd rfl (notMark _ rfl)
  · exact absurd rfl (notMark _ rfl)
  · rw [found]
    rfl

/-- The symbol of an operator is one token. -/
theorem Reads.symbol (lawful : scope.registry.Lawful) {symbol : String} {o : Operator}
    (found : scope.registry.operator? symbol = some o) :
    Reads scope symbol.toList offset previous
      [⟨.operator o, ⟨offset, offset + symbol.utf8ByteSize⟩⟩] := by
  have means : mark? scope symbol.toList = some (.operator o) :=
    mark?_symbol lawful (by rwa [String.ofList_toList])
  refine .single (lawful.pattern.lexeme?_symbol (lawful.mem_pattern found)) ?_
  simp only [read, means, whole, Text.byteLength_toList]

/-- The name of a routine means the routine where no variable has it. -/
theorem resolve?_routine {name : String} {r : Routine}
    (found : scope.registry.routine? name = some r) (unshadowed : name ∉ scope.names) :
    resolve? scope name = some (.routine r) := by
  have notSlot : scope.names.findIdx? (· == name) = none := by
    rw [List.findIdx?_eq_none_iff]
    intro other member
    exact beq_eq_false_iff_ne.mpr fun same => unshadowed (same ▸ member)
  simp only [resolve?, notSlot, found]

/-- A name that means something is one token. -/
theorem Reads.name {name : String} {meaning : Meaning} (valid : isName name = true)
    (means : resolve? scope name = some meaning) :
    Reads scope name.toList offset previous
      [⟨meaning, ⟨offset, offset + name.utf8ByteSize⟩⟩] := by
  refine .single (Pattern.lexeme?_name _ valid) ?_
  simp only [read, String.ofList_toList, means, whole, Text.byteLength_toList]

end Lexer

end Formula
