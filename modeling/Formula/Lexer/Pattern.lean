/-
# Formula.Lexer.Pattern — what a token looks like

A pattern decides which piece of text at a position is one token: a number
first, then a run of letters, then an operator symbol, then punctuation. Of the
operator symbols the longest ones are tried first, so a symbol is never taken
for a shorter one it begins with.

`lexeme?` looks at one position only. `search` finds the first position where
a token starts and says what was skipped before it. The main statements are
`search_append` (nothing of the text is lost) and `search_shrinks` (what is
left to read is shorter), on which the lexer's recursion rests.
-/
import Formula.Text.Utf8

namespace Formula

set_option autoImplicit false

/-! ## Numbers and words -/

/-- The longest unsigned number at the start of a text: digits with an optional
point and more digits, or a point and digits; nothing if there is none. -/
def unsignedNumber (cs : List Char) : List Char :=
  let whole := cs.takeWhile Char.isDigit
  match cs.dropWhile Char.isDigit with
  | '.' :: rest =>
    let fraction := rest.takeWhile Char.isDigit
    if whole = [] ∧ fraction = [] then [] else whole ++ '.' :: fraction
  | _ => whole

/-- The longest number at the start of a text, with a minus directly before it
if there is one. -/
def signedNumber : List Char → List Char
  | '-' :: cs =>
    match unsignedNumber cs with
    | [] => []
    | digits => '-' :: digits
  | cs => unsignedNumber cs

/-- The longest run of ASCII letters at the start of a text. -/
def word (cs : List Char) : List Char := cs.takeWhile Char.isAlpha

/-- The grammar's own marks. -/
def isPunctuation (c : Char) : Bool := c == '(' || c == ')' || c == ','

/-! ## Patterns -/

/-- The kinds of text a token is made of. -/
inductive Shape where
  | number
  | word
  | mark
deriving DecidableEq, Repr

/-- The operator symbols a lexer knows, in the order they are tried. -/
structure Pattern where
  symbols : List (List Char)
deriving DecidableEq, Repr

namespace Pattern

/-- Longer symbols come first; among symbols of the same length, which can
never both match, the order is alphabetical. -/
def triedBefore (s t : String) : Bool :=
  t.utf8ByteSize < s.utf8ByteSize || (s.utf8ByteSize == t.utf8ByteSize && decide (s ≤ t))

/-- Put a symbol before the first one that it goes before. -/
def insertSymbol (s : String) : List String → List String
  | [] => [s]
  | t :: ts => if triedBefore s t then s :: t :: ts else t :: insertSymbol s ts

/-- The pattern for a set of operator symbols. -/
def ofSymbols (symbols : List String) : Pattern :=
  ⟨(symbols.foldr insertSymbol []).map String.toList⟩

/-- The first symbol, in order of trial, that the text starts with. -/
def symbol? (p : Pattern) (cs : List Char) : Option (List Char) :=
  p.symbols.find? fun s => !s.isEmpty && s.isPrefixOf cs

/-- The token at the start of a text, if one starts there. -/
def lexeme? (p : Pattern) (cs : List Char) : Option (Shape × List Char) :=
  if signedNumber cs ≠ [] then some (.number, signedNumber cs)
  else if word cs ≠ [] then some (.word, word cs)
  else
    match p.symbol? cs with
    | some s => some (.mark, s)
    | none => (cs.head?.filter isPunctuation).map fun c => (.mark, [c])

end Pattern

/-- The first token of a text: what stands before it, its shape and its text,
and what comes after it. -/
structure Hit where
  skipped : List Char
  shape : Shape
  lexeme : List Char
  rest : List Char
deriving DecidableEq, Repr

/-- The first position at which a token starts. -/
def Pattern.search (p : Pattern) : List Char → Option Hit
  | [] => none
  | c :: cs =>
    match p.lexeme? (c :: cs) with
    | some (shape, lexeme) => some ⟨[], shape, lexeme, (c :: cs).drop lexeme.length⟩
    | none => (p.search cs).map fun hit => { hit with skipped := c :: hit.skipped }

/-! ## A token is a nonempty piece of the text -/

theorem unsignedNumber_append (cs : List Char) :
    unsignedNumber cs ++ cs.drop (unsignedNumber cs).length = cs := by
  have digits := List.takeWhile_append_dropWhile (p := Char.isDigit) (l := cs)
  unfold unsignedNumber
  dsimp only
  split
  · rename_i rest after
    have more := List.takeWhile_append_dropWhile (p := Char.isDigit) (l := rest)
    rw [after] at digits
    split
    · rfl
    · generalize cs.takeWhile Char.isDigit = whole at digits
      generalize rest.takeWhile Char.isDigit = fraction at more
      generalize rest.dropWhile Char.isDigit = remainder at more
      subst digits more
      simp
  · generalize cs.takeWhile Char.isDigit = whole at digits
    generalize cs.dropWhile Char.isDigit = remainder at digits
    subst digits
    simp

theorem signedNumber_append (cs : List Char) :
    signedNumber cs ++ cs.drop (signedNumber cs).length = cs := by
  unfold signedNumber
  split
  · rename_i rest
    have unsigned := unsignedNumber_append rest
    split
    · rfl
    · simpa using unsigned
  · exact unsignedNumber_append _

theorem word_append (cs : List Char) : word cs ++ cs.drop (word cs).length = cs := by
  have letters := List.takeWhile_append_dropWhile (p := Char.isAlpha) (l := cs)
  unfold word
  generalize cs.takeWhile Char.isAlpha = run at letters
  generalize cs.dropWhile Char.isAlpha = remainder at letters
  subst letters
  simp

theorem Pattern.symbol?_append {p : Pattern} {cs s : List Char} (found : p.symbol? cs = some s) :
    s ≠ [] ∧ s ++ cs.drop s.length = cs := by
  have holds := List.find?_some found
  simp only [Bool.and_eq_true, Bool.not_eq_true', List.isEmpty_eq_false_iff,
    List.isPrefixOf_iff_prefix] at holds
  obtain ⟨nonempty, after, rfl⟩ := holds
  exact ⟨nonempty, by simp⟩

theorem Pattern.lexeme?_append {p : Pattern} {cs lexeme : List Char} {shape : Shape}
    (found : p.lexeme? cs = some (shape, lexeme)) :
    lexeme ≠ [] ∧ lexeme ++ cs.drop lexeme.length = cs := by
  unfold Pattern.lexeme? at found
  split at found
  · cases found
    exact ⟨‹_›, signedNumber_append cs⟩
  split at found
  · cases found
    exact ⟨‹_›, word_append cs⟩
  split at found
  · cases found
    exact symbol?_append ‹_›
  · cases cs with
    | nil => simp at found
    | cons c cs =>
      simp only [List.head?_cons, Option.map_eq_some_iff] at found
      obtain ⟨d, same, split⟩ := found
      obtain ⟨same, _⟩ := Option.filter_eq_some_iff.mp same
      cases same
      cases split
      exact ⟨by simp, rfl⟩

/-- The parts that a search returns make up the text. -/
theorem Pattern.search_append {p : Pattern} {cs : List Char} {hit : Hit}
    (found : p.search cs = some hit) :
    hit.lexeme ≠ [] ∧ hit.skipped ++ hit.lexeme ++ hit.rest = cs := by
  induction cs generalizing hit with
  | nil => simp [Pattern.search] at found
  | cons c cs ih =>
    unfold Pattern.search at found
    split at found
    · cases found
      simpa using lexeme?_append ‹_›
    · obtain ⟨next, later, rfl⟩ := Option.map_eq_some_iff.mp found
      obtain ⟨nonempty, whole⟩ := ih later
      exact ⟨nonempty, by simpa using whole⟩

/-- What comes after a token is shorter than the text it was found in. -/
theorem Pattern.search_shrinks {p : Pattern} {cs : List Char} {hit : Hit}
    (found : p.search cs = some hit) : hit.rest.length < cs.length := by
  obtain ⟨nonempty, whole⟩ := search_append found
  have := List.length_pos_iff.mpr nonempty
  rw [← whole]
  simp only [List.length_append]
  omega

end Formula
