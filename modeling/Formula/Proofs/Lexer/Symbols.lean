/-
# Formula.Proofs.Lexer.Symbols — operator symbols are read whole

A pattern tries longer symbols first (`pairwise_ofSymbols`), in an order that does
not depend on how the symbols were listed (`ofSymbols_perm`). So of the symbols that
a text starts with it takes the longest one (`symbol?_eq_some_iff`), and that stays so
when a character follows that stands in no symbol (`symbol?_delimited`). White space
and the grammar's own marks are such characters; they also never belong to a number
or a name (`not_of_isDelimiter`).
-/
import Formula.Proofs.Registry.Made
import Mathlib.Data.List.Find

namespace Formula

set_option autoImplicit false

/-! ## Kinds of characters -/

namespace Text

theorem isDigit_iff {c : Char} : c.isDigit = true ↔ 0x30 ≤ c.toNat ∧ c.toNat ≤ 0x39 :=
  Char.isDigit_iff_toNat

theorem isAlpha_iff {c : Char} :
    c.isAlpha = true ↔ (0x41 ≤ c.toNat ∧ c.toNat ≤ 0x5A) ∨ (0x61 ≤ c.toNat ∧ c.toNat ≤ 0x7A) := by
  show (decide (c.val ≥ 0x41 ∧ c.val ≤ 0x5A) ||
    (decide (c.val ≥ 0x61) && decide (c.val ≤ 0x7A))) = true ↔ _
  simp only [Bool.or_eq_true, Bool.and_eq_true, decide_eq_true_eq, ge_iff_le,
    UInt32.le_iff_toNat_le]
  rfl

theorem isAlphanumeric_of_isDigit {c : Char} (digit : c.isDigit = true) :
    isAlphanumeric c = true :=
  (CodePoints.has_iff _ c).mpr ⟨(0x30, 0x39), .head _, isDigit_iff.mp digit⟩

theorem isAlphanumeric_of_isAlpha {c : Char} (letter : c.isAlpha = true) :
    isAlphanumeric c = true := by
  rcases isAlpha_iff.mp letter with upper | lower
  · exact (CodePoints.has_iff _ c).mpr ⟨(0x41, 0x5A), .tail _ (.head _), upper⟩
  · exact (CodePoints.has_iff _ c).mpr ⟨(0x61, 0x7A), .tail _ (.tail _ (.head _)), lower⟩

/-- No visible ASCII character is white space. -/
theorem outside_of_isBlank {c : Char} (blank : isBlank c = true) :
    c.toNat ≤ 0x20 ∨ 0x85 ≤ c.toNat := by
  have outside : ∀ range ∈ blanks, range.2 ≤ 0x20 ∨ 0x85 ≤ range.1 := by decide
  obtain ⟨range, member, low, high⟩ := (CodePoints.has_iff _ c).mp blank
  rcases outside range member with before | after
  · exact .inl (Nat.le_trans high before)
  · exact .inr (Nat.le_trans after low)

end Text

/-- What separates tokens: white space and the grammar's own marks. -/
def isDelimiter (c : Char) : Bool := Text.isBlank c || isPunctuation c

/-- A delimiter stands in no number, name or symbol. -/
theorem not_of_isDelimiter {c : Char} (delimiter : isDelimiter c = true) :
    c.isDigit = false ∧ c.isAlpha = false ∧ c ≠ '.' ∧ isOperatorChar c = false := by
  have notOperator : isOperatorChar c = false := by
    rw [isOperatorChar, Bool.not_eq_false']
    simp only [isDelimiter, isPunctuation, Bool.or_eq_true] at delimiter
    rcases delimiter with blank | ((opening | closing) | separator)
    · simp [blank]
    · simp [opening]
    · simp [closing]
    · simp [separator]
  have code : c.toNat ≤ 0x20 ∨ 0x85 ≤ c.toNat ∨ c = '(' ∨ c = ')' ∨ c = ',' := by
    simp only [isDelimiter, isPunctuation, Bool.or_eq_true, beq_iff_eq] at delimiter
    rcases delimiter with blank | ((opening | closing) | separator)
    · rcases Text.outside_of_isBlank blank with low | high
      · exact .inl low
      · exact .inr (.inl high)
    · simp [opening]
    · simp [closing]
    · simp [separator]
  rw [← Bool.not_eq_true, ← Bool.not_eq_true, Text.isDigit_iff, Text.isAlpha_iff]
  rcases code with low | high | rfl | rfl | rfl
  · exact ⟨by omega, by omega, fun point => by simp [point] at low, notOperator⟩
  · exact ⟨by omega, by omega, fun point => by simp [point] at high, notOperator⟩
  all_goals exact ⟨by decide, by decide, by decide, notOperator⟩

/-- The characters of symbols do not occur in numbers, names or delimiters. -/
theorem not_of_isOperatorChar {c : Char} (valid : isOperatorChar c = true) :
    c.isDigit = false ∧ c.isAlpha = false ∧ c ≠ '.' ∧ isDelimiter c = false := by
  simp only [isOperatorChar, Bool.not_eq_true', Bool.or_eq_false_iff, beq_eq_false_iff_ne]
    at valid
  obtain ⟨⟨⟨⟨⟨notAlphanumeric, notBlank⟩, notPoint⟩, notOpening⟩, notClosing⟩, notSeparator⟩ :=
    valid
  refine ⟨?_, ?_, notPoint, ?_⟩
  · exact Bool.eq_false_iff.mpr fun digit => by
      simp [Text.isAlphanumeric_of_isDigit digit] at notAlphanumeric
  · exact Bool.eq_false_iff.mpr fun letter => by
      simp [Text.isAlphanumeric_of_isAlpha letter] at notAlphanumeric
  · simp [isDelimiter, isPunctuation, notBlank, notOpening, notClosing, notSeparator]

/-- No number starts with a letter. -/
theorem not_of_isAlpha {c : Char} (letter : c.isAlpha = true) :
    c.isDigit = false ∧ c ≠ '.' ∧ c ≠ '-' := by
  have range := Text.isAlpha_iff.mp letter
  rw [← Bool.not_eq_true, Text.isDigit_iff]
  refine ⟨by omega, fun point => ?_, fun minus => ?_⟩
  · rw [point] at range
    exact absurd range (by decide)
  · rw [minus] at range
    exact absurd range (by decide)

theorem isName_iff {text : String} :
    isName text = true ↔ text.toList ≠ [] ∧ ∀ c ∈ text.toList, c.isAlpha = true := by
  rw [isName, Bool.and_eq_true, decide_eq_true_eq, List.all_eq_true]

theorem isOperatorSymbol_iff {text : String} :
    isOperatorSymbol text = true ↔
      text.toList ≠ [] ∧ ∀ c ∈ text.toList, isOperatorChar c = true := by
  rw [isOperatorSymbol, Bool.and_eq_true, decide_eq_true_eq, List.all_eq_true]

/-! ## Longest pieces -/

/-- A text starts with a piece of a kind, and with no longer one. -/
structure Longest (kind : List Char → Prop) (piece text : List Char) : Prop where
  ofKind : kind piece
  leads : piece <+: text
  longest : ∀ other, kind other → other <+: text → other.length ≤ piece.length

/-- A text starts with no piece of a kind. -/
def Lacks (kind : List Char → Prop) (text : List Char) : Prop :=
  ∀ piece, kind piece → ¬ piece <+: text

theorem Longest.unique {kind : List Char → Prop} {piece other text : List Char}
    (first : Longest kind piece text) (second : Longest kind other text) : piece = other :=
  (List.prefix_of_prefix_length_le first.leads second.leads
    (second.longest piece first.ofKind first.leads)).eq_of_length_le
      (first.longest other second.ofKind second.leads)

/-! ## The order of symbols -/

namespace Pattern

theorem triedBefore_iff {s t : String} : triedBefore s t = true ↔
    t.utf8ByteSize < s.utf8ByteSize ∨ (s.utf8ByteSize = t.utf8ByteSize ∧ s ≤ t) := by
  simp only [triedBefore, Bool.or_eq_true, Bool.and_eq_true, beq_iff_eq, decide_eq_true_eq]

theorem triedBefore_total {s t : String} (after : ¬ triedBefore s t = true) :
    triedBefore t s = true := by
  rw [triedBefore_iff] at after ⊢
  rcases Nat.lt_trichotomy s.utf8ByteSize t.utf8ByteSize with shorter | same | longer
  · exact .inl shorter
  · refine .inr ⟨same.symm, (String.le_total s t).resolve_left fun le => ?_⟩
    exact after (.inr ⟨same, le⟩)
  · exact absurd (.inl longer) after

theorem triedBefore_trans {s t u : String} (first : triedBefore s t = true)
    (second : triedBefore t u = true) : triedBefore s u = true := by
  rw [triedBefore_iff] at *
  rcases first with longer | ⟨same, le⟩
  · exact .inl (by omega)
  · rcases second with longer | ⟨same', le'⟩
    · exact .inl (by omega)
    · exact .inr ⟨same.trans same', String.le_trans le le'⟩

/-- No two symbols share a place in the order. -/
theorem triedBefore_antisymm {s t : String} (first : triedBefore s t = true)
    (second : triedBefore t s = true) : s = t := by
  rw [triedBefore_iff] at *
  rcases first with longer | ⟨same, le⟩
  · omega
  · rcases second with longer | ⟨-, le'⟩
    · omega
    · exact String.le_antisymm le le'

theorem perm_insertSymbol (s : String) (ts : List String) : (insertSymbol s ts).Perm (s :: ts) := by
  induction ts with
  | nil => exact .refl _
  | cons t ts ih =>
      rw [insertSymbol]
      split
      · exact .refl _
      · exact (ih.cons t).trans (.swap s t ts)

theorem perm_foldr_insertSymbol (symbols : List String) :
    (symbols.foldr insertSymbol []).Perm symbols := by
  induction symbols with
  | nil => exact .refl _
  | cons s symbols ih => exact (perm_insertSymbol s _).trans (ih.cons s)

theorem mem_ofSymbols {symbols : List String} {s : List Char} :
    s ∈ (ofSymbols symbols).symbols ↔ ∃ t ∈ symbols, t.toList = s := by
  simp only [ofSymbols, List.mem_map, (perm_foldr_insertSymbol symbols).mem_iff]

theorem pairwise_insertSymbol (s : String) {ts : List String}
    (ordered : ts.Pairwise fun t u => triedBefore t u = true) :
    (insertSymbol s ts).Pairwise fun t u => triedBefore t u = true := by
  induction ts with
  | nil => simp [insertSymbol]
  | cons t ts ih =>
      obtain ⟨below, rest⟩ := List.pairwise_cons.mp ordered
      rw [insertSymbol]
      split
      · rename_i before
        refine List.pairwise_cons.mpr ⟨fun u member => ?_, ordered⟩
        rcases List.mem_cons.mp member with rfl | later
        · exact before
        · exact triedBefore_trans before (below u later)
      · rename_i after
        refine List.pairwise_cons.mpr ⟨fun u member => ?_, ih rest⟩
        rcases List.mem_cons.mp ((perm_insertSymbol s ts).mem_iff.mp member) with rfl | later
        · exact triedBefore_total after
        · exact below u later

theorem pairwise_foldr_insertSymbol (symbols : List String) :
    (symbols.foldr insertSymbol []).Pairwise fun s t => triedBefore s t = true := by
  induction symbols with
  | nil => simp
  | cons s symbols ih => exact pairwise_insertSymbol s ih

/-- No symbol is longer than one that is tried before it. -/
theorem pairwise_ofSymbols (symbols : List String) :
    (ofSymbols symbols).symbols.Pairwise fun s t => Text.byteLength t ≤ Text.byteLength s := by
  simp only [ofSymbols, List.pairwise_map, Text.byteLength_toList]
  refine (pairwise_foldr_insertSymbol symbols).imp fun before => ?_
  rcases triedBefore_iff.mp before with longer | ⟨same, -⟩
  · exact Nat.le_of_lt longer
  · exact Nat.le_of_eq same.symm

/-- It does not matter in which order the symbols are listed. -/
theorem ofSymbols_perm {symbols others : List String} (perm : symbols.Perm others) :
    ofSymbols symbols = ofSymbols others := by
  have same : (symbols.foldr insertSymbol []).Perm (others.foldr insertSymbol []) :=
    (perm_foldr_insertSymbol symbols).trans (perm.trans (perm_foldr_insertSymbol others).symm)
  have equal := same.eq_of_pairwise (fun _ _ _ _ => triedBefore_antisymm)
    (pairwise_foldr_insertSymbol symbols) (pairwise_foldr_insertSymbol others)
  rw [ofSymbols, ofSymbols, equal]

/-- Every symbol is a valid one, and no symbol is longer than one before it. -/
structure Lawful (p : Pattern) : Prop where
  nonempty : ∀ s ∈ p.symbols, s ≠ []
  chars : ∀ s ∈ p.symbols, ∀ c ∈ s, isOperatorChar c = true
  longest : p.symbols.Pairwise fun s t => Text.byteLength t ≤ Text.byteLength s

variable {p : Pattern}

/-- Of two pieces that a text starts with, the one of more bytes has more characters. -/
theorem length_le_of_byteLength_le {text s t : List Char} (first : s <+: text)
    (second : t <+: text) (bytes : Text.byteLength t ≤ Text.byteLength s) :
    t.length ≤ s.length := by
  by_contra longer
  obtain ⟨rest, rfl⟩ := List.prefix_of_prefix_length_le first second (by omega)
  rw [Text.byteLength_append] at bytes
  cases rest with
  | nil => simp at longer
  | cons c rest =>
      have positive := Char.utf8Size_pos c
      rw [Text.byteLength_cons] at bytes
      omega

/-- The symbol that is found at the start of a text is the longest one there. -/
theorem Lawful.longest_of_symbol? (lawful : p.Lawful) {text s : List Char}
    (found : p.symbol? text = some s) : Longest (· ∈ p.symbols) s text := by
  obtain ⟨here, before, after, split, passed⟩ := List.find?_eq_some_iff_append.mp found
  rw [Bool.and_eq_true, List.isPrefixOf_iff_prefix] at here
  refine ⟨by rw [split]; simp, here.2, fun t known leads => ?_⟩
  refine length_le_of_byteLength_le here.2 leads ?_
  have matches_ : (!t.isEmpty && t.isPrefixOf text) = true := by
    simp [lawful.nonempty t known, List.isPrefixOf_iff_prefix.mpr leads]
  have order := lawful.longest
  rw [split] at known order
  rcases List.mem_append.mp known with early | late
  · have fails := passed t early
    rw [matches_] at fails
    cases fails
  · rcases List.mem_cons.mp late with rfl | later
    · exact Nat.le_refl _
    · exact List.rel_of_pairwise_cons (List.pairwise_append.mp order).2.1 later

theorem Lawful.symbol?_eq_none_iff (lawful : p.Lawful) {text : List Char} :
    p.symbol? text = none ↔ Lacks (· ∈ p.symbols) text := by
  rw [symbol?, List.find?_eq_none]
  constructor
  · intro none_ s known leads
    have fails := none_ s known
    simp [lawful.nonempty s known, List.isPrefixOf_iff_prefix.mpr leads] at fails
  · intro lacks s known here
    rw [Bool.and_eq_true, List.isPrefixOf_iff_prefix] at here
    exact lacks s known here.2

theorem Lawful.symbol?_eq_some_iff (lawful : p.Lawful) {text s : List Char} :
    p.symbol? text = some s ↔ Longest (· ∈ p.symbols) s text := by
  refine ⟨lawful.longest_of_symbol?, fun longest => ?_⟩
  cases found : p.symbol? text with
  | none => exact absurd longest.leads (lawful.symbol?_eq_none_iff.mp found s longest.ofKind)
  | some t => rw [(lawful.longest_of_symbol? found).unique longest]

/-- A symbol is found at the start of itself, also where shorter ones match. -/
theorem Lawful.symbol?_self (lawful : p.Lawful) {s : List Char} (known : s ∈ p.symbols) :
    p.symbol? s = some s :=
  lawful.symbol?_eq_some_iff.mpr
    ⟨known, List.prefix_refl s, fun _ _ leads => leads.length_le⟩

/-- What follows after a delimiter does not change the symbol at the start. -/
theorem Lawful.symbol?_delimited (lawful : p.Lawful) {c : Char} (delimiter : isDelimiter c = true)
    (cs tail : List Char) : p.symbol? (cs ++ c :: tail) = p.symbol? cs := by
  refine List.find?_congr fun s known => ?_
  congr 1
  rw [Bool.eq_iff_iff, List.isPrefixOf_iff_prefix, List.isPrefixOf_iff_prefix]
  refine ⟨fun before => ?_, fun before => before.trans (List.prefix_append ..)⟩
  -- a longer prefix would contain the delimiter
  by_contra notBefore
  have longer : cs.length < s.length := by
    by_contra short
    exact notBefore (List.prefix_of_prefix_length_le before (List.prefix_append ..) (by omega))
  have upTo : cs ++ [c] <+: s := by
    refine List.prefix_of_prefix_length_le ?_ before (by simpa using Nat.succ_le_of_lt longer)
    exact ⟨tail, by simp⟩
  have inside : c ∈ s := upTo.subset (by simp)
  have notOperator := (not_of_isDelimiter delimiter).2.2.2
  simp [lawful.chars s known c inside] at notOperator

/-- No symbol starts with a delimiter. -/
theorem Lawful.symbol?_delimiter (lawful : p.Lawful) {c : Char} (delimiter : isDelimiter c = true)
    (tail : List Char) : p.symbol? (c :: tail) = none := by
  have whole := lawful.symbol?_delimited delimiter [] tail
  rw [List.nil_append] at whole
  rw [whole, symbol?, List.find?_eq_none]
  intro s _
  cases s <;> simp

end Pattern

namespace Registry

variable {r : Registry}

theorem Lawful.pattern (lawful : r.Lawful) : r.pattern.Lawful := by
  have each : ∀ s ∈ r.pattern.symbols, s ≠ [] ∧ ∀ c ∈ s, isOperatorChar c = true := by
    intro s member
    rw [lawful.current, freshPattern, Pattern.mem_ofSymbols] at member
    obtain ⟨symbol, listed, rfl⟩ := member
    obtain ⟨o, known, rfl⟩ := List.mem_map.mp listed
    exact isOperatorSymbol_iff.mp (lawful.symbols o known)
  refine ⟨fun s member => (each s member).1, fun s member => (each s member).2, ?_⟩
  rw [lawful.current]
  exact Pattern.pairwise_ofSymbols _

/-- The symbol of an operator is one of the pattern's. -/
theorem Lawful.mem_pattern (lawful : r.Lawful) {symbol : String} {o : Operator}
    (found : r.operator? symbol = some o) : symbol.toList ∈ r.pattern.symbols := by
  obtain ⟨member, rfl, -⟩ := lawful.symbol_of_operator? found
  rw [lawful.current, freshPattern, Pattern.mem_ofSymbols]
  exact ⟨o.symbol, List.mem_map_of_mem member, rfl⟩

end Registry

end Formula
