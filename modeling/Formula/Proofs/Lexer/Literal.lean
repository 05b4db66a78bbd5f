/-
# Formula.Proofs.Lexer.Literal — every number the lexer finds is read

What the lexer takes for a number is digits with at most one point, after a minus
perhaps, and reading refuses no such text, `1.` and `.5` included
(`IsUnsigned.exists_decimal`). So the value of a literal is never the one that stands
for a text that is no number.

A minus in front sets the sign and leaves the magnitude as it is. A literal is therefore
negative exactly if its text begins with a minus, zero and infinity included, and without
the minus it is the negative (`literals_denote`).
-/
import Formula.Proofs.Lexer.Pieces
import Formula.Proofs.Number.Sign

namespace Formula

set_option autoImplicit false

open Number (Begins read? withSign)
open Number.Decimal (mantissa mantissa_digits mantissa_point ofDigits readExponent? readUnsigned?)
open Number.Binary64 (infinity isNaN_ofRank neg_ofRank negative negative_ofRank ofRank)

/-- No decimal rounds to more than infinity. -/
theorem Number.Decimal.rank_le_infinity (d : Number.Decimal) : d.rank ≤ infinity := by
  unfold rank
  split
  · exact Nat.zero_le _
  split
  · split
    · exact Nat.le_refl _
    · exact Number.Binary64.nearest_le_infinity _ _
  · split
    · exact Nat.zero_le _
    · exact Number.Binary64.nearest_le_infinity _ _

variable {text : List Char}

namespace IsUnsigned

theorem begins (number : IsUnsigned text) : ∃ c cs, text = c :: cs ∧ Begins c := by
  cases number with
  | whole some_ digits =>
      obtain ⟨c, cs, rfl⟩ := List.exists_cons_of_ne_nil some_
      exact ⟨c, cs, rfl, .inl (digits c (List.mem_cons_self ..))⟩
  | @mixed whole fraction some_ digits =>
      obtain ⟨c, cs, rfl⟩ := List.exists_cons_of_ne_nil some_
      exact ⟨c, cs ++ '.' :: fraction, rfl, .inl (digits c (List.mem_cons_self ..))⟩
  | @fraction fraction => exact ⟨'.', fraction, rfl, .inr rfl⟩

/-- A number is digits before a point and digits after it, of which there are some. -/
theorem mantissa_eq (number : IsUnsigned text) : ∃ whole fraction : List Char,
    mantissa text = (whole, fraction, []) ∧ ¬ (whole = [] ∧ fraction = []) := by
  cases number with
  | whole some_ digits =>
      exact ⟨text, [], mantissa_digits digits, fun none_ => some_ none_.1⟩
  | @mixed whole fraction some_ digits more =>
      exact ⟨whole, fraction, mantissa_point digits more, fun none_ => some_ none_.1⟩
  | @fraction fraction some_ more =>
      have noDigits : ∀ c ∈ ([] : List Char), c.isDigit = true := by simp
      exact ⟨[], fraction, mantissa_point noDigits more, fun none_ => some_ none_.2⟩

theorem exists_decimal (number : IsUnsigned text) :
    ∃ d, readUnsigned? text = some d := by
  obtain ⟨whole, fraction, parts, some_⟩ := number.mantissa_eq
  refine ⟨⟨ofDigits (whole ++ fraction), 0 - (fraction.length : Int)⟩, ?_⟩
  simp only [readUnsigned?, parts, if_neg some_, readExponent?, Option.map_some]

/-- A number is read with a minus and without, as the same magnitude. -/
theorem exists_rank (number : IsUnsigned text) : ∃ rank, rank ≤ infinity ∧
    ∀ minus, read? (withSign minus text) = some (ofRank minus rank) := by
  obtain ⟨c, cs, split, begins⟩ := number.begins
  obtain ⟨d, decimal⟩ := number.exists_decimal
  refine ⟨d.rank, d.rank_le_infinity, fun minus => ?_⟩
  rw [Number.read?_withSign split begins, decimal, Option.map_some]

end IsUnsigned

namespace Lexer

/-- The text is read as a value, which is a number, and negative exactly if the text begins
with a minus. -/
structure Denotes (text : List Char) (value : Float) : Prop where
  read : read? text = some value
  number : value.isNaN = false
  sign : negative value = true ↔ text.head? = some '-'

theorem literal_of_read {value : Float} (read : read? text = some value) : literal text = value := by
  rw [literal, read, Option.getD_some]

theorem denotes_withSign {rank : Nat} {minus : Bool} (number : IsUnsigned text)
    (upTo : rank ≤ infinity) (read : read? (withSign minus text) = some (ofRank minus rank)) :
    Denotes (withSign minus text) (literal (withSign minus text)) ∧
      literal (withSign minus text) = ofRank minus rank := by
  have value : literal (withSign minus text) = ofRank minus rank := literal_of_read read
  refine ⟨⟨by rw [value, read], by rw [value, isNaN_ofRank upTo], ?_⟩, value⟩
  rw [value, negative_ofRank upTo]
  cases minus with
  | true => simp [withSign]
  | false =>
      obtain ⟨c, cs, rfl, begins⟩ := number.begins
      simp [withSign, begins.not_sign.1]

/-- A number is read, with its sign, and so is what comes after its minus. -/
theorem denotes_of_numeral (numeral : IsNumeral text) :
    Denotes text (literal text) ∧ ∀ digits, text = '-' :: digits →
      Denotes digits (literal digits) ∧ literal digits = -literal text := by
  cases numeral with
  | unsigned number =>
      obtain ⟨rank, upTo, reads⟩ := number.exists_rank
      refine ⟨(denotes_withSign number upTo (reads false)).1, ?_⟩
      rintro digits rfl
      exact absurd number (not_isUnsigned_minus digits)
  | @signed unsigned number =>
      obtain ⟨rank, upTo, reads⟩ := number.exists_rank
      obtain ⟨signed, value⟩ := denotes_withSign number upTo (reads true)
      obtain ⟨plain, magnitude⟩ := denotes_withSign number upTo (reads false)
      refine ⟨signed, fun digits split => ?_⟩
      obtain ⟨-, rfl⟩ := List.cons.inj split
      replace value : literal ('-' :: unsigned) = ofRank true rank := value
      replace magnitude : literal unsigned = ofRank false rank := magnitude
      refine ⟨plain, ?_⟩
      rw [value, neg_ofRank upTo, magnitude, Bool.not_true]

/-- What the pattern finds as a number is one. -/
theorem isNumeral_of_lexeme? {p : Pattern} {source : List Char}
    (found : p.lexeme? source = some (.number, text)) : IsNumeral text := by
  unfold Pattern.lexeme? at found
  split at found
  · cases found
    exact greedy_signedNumber.ofKind source ‹_›
  split at found
  · cases found
  split at found
  · cases found
  · obtain ⟨c, -, mark⟩ := Option.map_eq_some_iff.mp found
    cases mark

/-- A constant made of the text of a number has the value of the text, or of what comes after
its minus. -/
theorem constant_of_number {scope : Scope} {previous : Option Category} {start : Nat}
    {tokens : List Token} {value : Float} {span : Span}
    (made : number scope previous text start = .ok tokens)
    (member : ⟨.constant value, span⟩ ∈ tokens) :
    ∃ part, (part = text ∨ '-' :: part = text) ∧ value = literal part := by
  rw [number.eq_def] at made
  split at made
  · rename_i digits _
    split at made
    · cases made
    · cases made
      simp only [List.mem_cons, Token.mk.injEq, reduceCtorEq, false_and, Meaning.constant.injEq,
        List.not_mem_nil, or_false, false_or] at member
      exact ⟨digits, .inr rfl, member.1⟩
  · cases made
    simp only [List.mem_singleton, Token.mk.injEq, Meaning.constant.injEq] at member
    exact ⟨_, .inl rfl, member.1⟩

/-- Let a text be what the lexer takes for a number somewhere. It is read as a value, which
is no NaN and is negative exactly if the text begins with a minus. If it does, the text
after the minus is read as well, and its value is the negative of the other. So each
constant that is made of the text is what some text was read as. -/
theorem literals_denote {p : Pattern} {source text : List Char}
    (found : p.lexeme? source = some (.number, text)) :
    Denotes text (literal text) ∧
      (∀ digits, text = '-' :: digits →
        Denotes digits (literal digits) ∧ literal digits = -literal text) ∧
      ∀ scope previous start tokens, number scope previous text start = .ok tokens →
        ∀ value span, ⟨.constant value, span⟩ ∈ tokens →
          ∃ part, (part = text ∨ '-' :: part = text) ∧ Denotes part value := by
  obtain ⟨whole, unsigned⟩ := denotes_of_numeral (isNumeral_of_lexeme? found)
  refine ⟨whole, unsigned, fun scope previous start tokens made value span member => ?_⟩
  obtain ⟨part, parts, rfl⟩ := constant_of_number made member
  refine ⟨part, parts, ?_⟩
  rcases parts with rfl | split
  · exact whole
  · exact (unsigned part split.symm).1

/-- In `x-.0` the lexer takes `-.0` for a number. By itself it is a negative zero, and `.0`,
which is what it gives after the `x`, is the negative of it. -/
theorem literals_denote_zero :
    let scope : Scope := ⟨["x"], .standard⟩
    scope.registry.pattern.lexeme? "-.0".toList = some (.number, "-.0".toList) ∧
      Denotes "-.0".toList (literal "-.0".toList) ∧ negative (literal "-.0".toList) = true ∧
      literal ".0".toList = -literal "-.0".toList ∧
      ∃ minus, number scope (some .constant) "-.0".toList 1 = .ok
          [⟨.operator minus, ⟨1, 2⟩⟩, ⟨.constant (literal ".0".toList), ⟨2, 4⟩⟩] ∧
        ∃ part, (part = "-.0".toList ∨ '-' :: part = "-.0".toList) ∧
          Denotes part (literal ".0".toList) := by
  intro scope
  have found : scope.registry.pattern.lexeme? "-.0".toList = some (.number, "-.0".toList) := by
    decide +kernel
  obtain ⟨signed, unsigned, constants⟩ := literals_denote found
  have opposite := (unsigned ".0".toList (by decide)).2
  have known : (scope.registry.operator? "-").isSome = true := by decide +kernel
  obtain ⟨minus, here⟩ := Option.isSome_iff_exists.mp known
  have made : number scope (some .constant) "-.0".toList 1 = .ok
      [⟨.operator minus, ⟨1, 2⟩⟩, ⟨.constant (literal ".0".toList), ⟨2, 4⟩⟩] := by
    have split : "-.0".toList = '-' :: ".0".toList := rfl
    rw [split, number.eq_def]
    simp only [endsOperand, here]
    rfl
  exact ⟨found, signed, signed.sign.mpr (by decide), opposite, minus, made,
    constants scope _ _ _ made _ ⟨2, 4⟩ (by simp)⟩

end Lexer

end Formula
