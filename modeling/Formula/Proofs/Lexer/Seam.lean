/-
# Formula.Proofs.Lexer.Seam — tokens end at delimiters

No number, name or symbol goes on beyond a delimiter. So the token at the start
of a text is the same when a delimiter and anything else come after the text
(`lexeme?_delimited`). Delimiters themselves are either white space, at which no
token starts (`lexeme?_blank`), or a token each (`lexeme?_punctuation`).
-/
import Formula.Proofs.Lexer.Symbols
import Mathlib.Data.List.TakeWhile

namespace Formula

set_option autoImplicit false

section Delimited

variable {c : Char} (delimiter : isDelimiter c = true)

include delimiter

theorem unsignedNumber_delimited (cs tail : List Char) :
    unsignedNumber (cs ++ c :: tail) = unsignedNumber cs := by
  obtain ⟨notDigit, -, notPoint, -⟩ := not_of_isDelimiter delimiter
  have digits : ∀ ds : List Char,
      (ds ++ c :: tail).takeWhile Char.isDigit = ds.takeWhile Char.isDigit := by
    intro ds
    induction ds with
    | nil => simp [notDigit]
    | cons d ds ih => simp [List.takeWhile_cons, ih]
  have after : ∀ ds : List Char,
      (ds ++ c :: tail).dropWhile Char.isDigit = ds.dropWhile Char.isDigit ++ c :: tail := by
    intro ds
    induction ds with
    | nil => simp [notDigit]
    | cons d ds ih =>
        rw [List.cons_append, List.dropWhile_cons, List.dropWhile_cons]
        split
        · exact ih
        · rfl
  simp only [unsignedNumber, digits, after]
  cases cs.dropWhile Char.isDigit with
  | nil => simp [notPoint]
  | cons d ds =>
      by_cases point : d = '.'
      · simp [point, digits]
      · simp [point]

theorem signedNumber_delimited {cs : List Char} (some_ : cs ≠ []) (tail : List Char) :
    signedNumber (cs ++ c :: tail) = signedNumber cs := by
  cases cs with
  | nil => exact absurd rfl some_
  | cons d ds =>
      by_cases minus : d = '-'
      · subst minus
        simp only [List.cons_append, signedNumber, unsignedNumber_delimited delimiter]
      · have whole := unsignedNumber_delimited delimiter (d :: ds) tail
        simpa [signedNumber, minus] using whole

theorem word_delimited (cs tail : List Char) : word (cs ++ c :: tail) = word cs := by
  have notLetter := (not_of_isDelimiter delimiter).2.1
  induction cs with
  | nil => simp [word, notLetter]
  | cons d ds ih =>
      simp only [word, List.cons_append, List.takeWhile_cons] at ih ⊢
      rw [ih]

namespace Pattern.Lawful

variable {p : Pattern}

theorem lexeme?_delimited (lawful : p.Lawful) {cs : List Char} (some_ : cs ≠ [])
    (tail : List Char) : p.lexeme? (cs ++ c :: tail) = p.lexeme? cs := by
  have first : (cs ++ c :: tail).head? = cs.head? := by
    cases cs with
    | nil => exact absurd rfl some_
    | cons d ds => rfl
  simp only [lexeme?, signedNumber_delimited delimiter some_, word_delimited delimiter,
    lawful.symbol?_delimited delimiter, first]

end Pattern.Lawful

end Delimited

theorem unsignedNumber_eq_nil {c : Char} (notDigit : c.isDigit = false) (notPoint : c ≠ '.')
    (cs : List Char) : unsignedNumber (c :: cs) = [] := by
  simp [unsignedNumber, notDigit, notPoint]

theorem signedNumber_eq_nil {c : Char} (notDigit : c.isDigit = false) (notPoint : c ≠ '.')
    (notMinus : c ≠ '-') (cs : List Char) : signedNumber (c :: cs) = [] := by
  simpa [signedNumber, notMinus] using unsignedNumber_eq_nil notDigit notPoint cs

namespace Pattern.Lawful

variable {p : Pattern}

/-- Of the tokens, only punctuation starts at a delimiter. -/
theorem lexeme?_delimiter (lawful : p.Lawful) {c : Char} (delimiter : isDelimiter c = true)
    (tail : List Char) :
    p.lexeme? (c :: tail) = if isPunctuation c then some (.mark, [c]) else none := by
  obtain ⟨notDigit, notLetter, notPoint, notOperator⟩ := not_of_isDelimiter delimiter
  have notMinus : c ≠ '-' := fun minus => by
    rw [minus] at notOperator
    exact absurd notOperator (by decide +kernel)
  have noNumber := signedNumber_eq_nil notDigit notPoint notMinus tail
  have noWord : word (c :: tail) = [] := by simp [word, notLetter]
  have noSymbol := lawful.symbol?_delimiter delimiter tail
  simp only [lexeme?, noNumber, noWord, noSymbol, ne_eq, not_true_eq_false, if_false,
    List.head?_cons, Option.filter_some]
  split <;> rfl

/-- No token starts at white space. -/
theorem lexeme?_blank (lawful : p.Lawful) {c : Char} (blank : Text.isBlank c = true)
    (tail : List Char) : p.lexeme? (c :: tail) = none := by
  have noMark : isPunctuation c = false := by
    refine Bool.eq_false_iff.mpr fun mark => ?_
    simp only [isPunctuation, Bool.or_eq_true, beq_iff_eq] at mark
    rcases mark with (rfl | rfl) | rfl <;> exact absurd blank (by decide)
  rw [lawful.lexeme?_delimiter (by simp [isDelimiter, blank]), noMark]
  rfl

theorem lexeme?_punctuation (lawful : p.Lawful) {c : Char} (mark : isPunctuation c = true)
    (tail : List Char) : p.lexeme? (c :: tail) = some (.mark, [c]) := by
  rw [lawful.lexeme?_delimiter (by simp [isDelimiter, mark]), mark]
  rfl

/-- A symbol is one token. -/
theorem lexeme?_symbol (lawful : p.Lawful) {s : List Char} (known : s ∈ p.symbols) :
    p.lexeme? s = some (.mark, s) := by
  obtain ⟨c, cs, rfl⟩ := List.exists_cons_of_ne_nil (lawful.nonempty s known)
  obtain ⟨notDigit, notLetter, notPoint, -⟩ :=
    not_of_isOperatorChar (lawful.chars _ known c (List.mem_cons_self ..))
  have noNumber : signedNumber (c :: cs) = [] := by
    by_cases minus : c = '-'
    · have rest : unsignedNumber cs = [] := by
        cases cs with
        | nil => rfl
        | cons d ds =>
            obtain ⟨notDigit, -, notPoint, -⟩ :=
              not_of_isOperatorChar (lawful.chars _ known d (by simp))
            exact unsignedNumber_eq_nil notDigit notPoint ds
      subst minus
      simp [signedNumber, rest]
    · exact signedNumber_eq_nil notDigit notPoint minus cs
  have noWord : word (c :: cs) = [] := by simp [word, notLetter]
  simp [lexeme?, noNumber, noWord, lawful.symbol?_self known]

end Pattern.Lawful

/-- A name is one token. -/
theorem Pattern.lexeme?_name (p : Pattern) {name : String} (valid : isName name = true) :
    p.lexeme? name.toList = some (.word, name.toList) := by
  obtain ⟨nonempty, letters⟩ := isName_iff.mp valid
  have whole : word name.toList = name.toList := List.takeWhile_eq_self_iff.mpr letters
  obtain ⟨c, cs, split⟩ := List.exists_cons_of_ne_nil nonempty
  have letter : c.isAlpha = true := letters c (split ▸ List.mem_cons_self ..)
  have noNumber : signedNumber name.toList = [] := by
    obtain ⟨notDigit, notPoint, notMinus⟩ := not_of_isAlpha letter
    rw [split]
    exact signedNumber_eq_nil notDigit notPoint notMinus cs
  simp [lexeme?, noNumber, whole, nonempty]

end Formula
