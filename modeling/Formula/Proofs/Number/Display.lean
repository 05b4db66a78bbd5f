/-
# Formula.Proofs.Number.Display — a finite double is read back as it was written

`display` writes a finite double as a sign and a `numeral`: digits, and after a
point more digits if there are any. Reading takes any numeral for the decimal its
digits say (`readUnsigned?_numeral`), and the numeral of a decimal says one that
rounds to the same rank (`exists_numeral`). Nothing that begins with a digit or the
point is taken for a word, so with a sign before it the magnitude is the same
(`read?_withSign`). As the shortest decimal rounds to the rank it was found for, this
is the double again, to the bit (`read?_display`).

The lexer takes the whole written form for one number, also where it begins with
a minus (`signedNumber_display`).
-/
import Formula.Lexer.Pattern
import Formula.Proofs.Number.Rounding

namespace Formula.Number

set_option autoImplicit false

open Binary64

/-! ## Numerals -/

/-- Digits, with a point before those of the fraction if there are any. -/
def numeral (whole fraction : List Char) : List Char :=
  if fraction = [] then whole else whole ++ '.' :: fraction

/-- Some digits before the point and perhaps some after it. -/
structure Digits (whole fraction : List Char) : Prop where
  some_ : whole ≠ []
  whole : ∀ c ∈ whole, c.isDigit = true
  fraction : ∀ c ∈ fraction, c.isDigit = true

variable {whole fraction : List Char}

theorem takeWhile_digits {digits : List Char} (all : ∀ c ∈ digits, c.isDigit = true) :
    digits.takeWhile Char.isDigit = digits ∧ digits.dropWhile Char.isDigit = [] :=
  ⟨List.takeWhile_eq_self_iff.mpr all, List.dropWhile_eq_nil_iff.mpr all⟩

theorem takeWhile_digits_point {digits : List Char} (all : ∀ c ∈ digits, c.isDigit = true)
    (rest : List Char) :
    (digits ++ '.' :: rest).takeWhile Char.isDigit = digits ∧
      (digits ++ '.' :: rest).dropWhile Char.isDigit = '.' :: rest := by
  have point : Char.isDigit '.' = false := by decide
  constructor
  · rw [List.takeWhile_append_of_pos all, List.takeWhile_cons, if_neg (by simp [point]),
      List.append_nil]
  · rw [List.dropWhile_append_of_pos all, List.dropWhile_cons, if_neg (by simp [point])]

/-- The lexer takes a numeral as a whole. -/
theorem unsignedNumber_numeral (digits : Digits whole fraction) :
    unsignedNumber (numeral whole fraction) = numeral whole fraction := by
  unfold numeral unsignedNumber
  split
  · obtain ⟨taken, dropped⟩ := takeWhile_digits digits.whole
    simp only [taken, dropped]
  · obtain ⟨taken, dropped⟩ := takeWhile_digits_point digits.whole fraction
    simp only [taken, dropped, (takeWhile_digits digits.fraction).1, digits.some_, false_and,
      if_false]

/-- A numeral begins with a digit. -/
theorem exists_digit (digits : Digits whole fraction) :
    ∃ c cs, numeral whole fraction = c :: cs ∧ c.isDigit = true := by
  obtain ⟨c, cs, rfl⟩ := List.exists_cons_of_ne_nil digits.some_
  have digit := digits.whole c (List.mem_cons_self ..)
  unfold numeral
  split
  · exact ⟨c, cs, rfl, digit⟩
  · exact ⟨c, cs ++ '.' :: fraction, rfl, digit⟩

namespace Decimal

/-- Digits alone stand before the point. -/
theorem mantissa_digits {digits : List Char} (all : ∀ c ∈ digits, c.isDigit = true) :
    mantissa digits = (digits, [], []) := by
  obtain ⟨taken, dropped⟩ := takeWhile_digits all
  simp only [mantissa, taken, dropped]

/-- A point divides digits, of which there may be none on either side. -/
theorem mantissa_point {digits fraction : List Char} (all : ∀ c ∈ digits, c.isDigit = true)
    (more : ∀ c ∈ fraction, c.isDigit = true) :
    mantissa (digits ++ '.' :: fraction) = (digits, fraction, []) := by
  obtain ⟨taken, dropped⟩ := takeWhile_digits_point all fraction
  obtain ⟨takenAfter, droppedAfter⟩ := takeWhile_digits more
  simp only [mantissa, taken, dropped, takenAfter, droppedAfter]

/-- Reading takes a numeral for the decimal that its digits say. -/
theorem readUnsigned?_numeral (digits : Digits whole fraction) :
    readUnsigned? (numeral whole fraction) =
      some ⟨ofDigits (whole ++ fraction), -(fraction.length : Int)⟩ := by
  have parts : mantissa (numeral whole fraction) = (whole, fraction, []) := by
    unfold numeral
    split
    · rename_i none_
      rw [none_, mantissa_digits digits.whole]
    · exact mantissa_point digits.whole digits.fraction
  simp [readUnsigned?, parts, digits.some_, readExponent?]

/-! ## The numeral of a decimal -/

theorem ofDigits_eq (digits : List Char) : ofDigits digits = Nat.ofDigitChars 10 digits 0 :=
  Nat.ofDigitChars_eq_foldl.symm

theorem ofDigits_toDigits (n : Nat) : ofDigits (Nat.toDigits 10 n) = n := by
  rw [ofDigits_eq, Nat.ofDigitChars_ten_toDigits]

theorem ofDigits_append_zeros (digits : List Char) (n : Nat) :
    ofDigits (digits ++ List.replicate n '0') = ofDigits digits * powerOfTen n := by
  rw [ofDigits_eq, ofDigits_eq, Nat.ofDigitChars_append, Nat.ofDigitChars_replicate_zero,
    Nat.mul_comm]
  rfl

theorem ofDigits_zeros_append (n : Nat) (digits : List Char) :
    ofDigits (List.replicate n '0' ++ digits) = ofDigits digits := by
  rw [ofDigits_eq, ofDigits_eq, Nat.ofDigitChars_append, Nat.ofDigitChars_replicate_zero,
    Nat.mul_zero]

/-- What is trimmed off are zeros at the end. -/
theorem exists_zeros (digits : List Char) :
    ∃ n, digits = trimZeros digits ++ List.replicate n '0' := by
  let zeros := digits.reverse.takeWhile (· = '0')
  have all : ∀ c ∈ zeros.reverse, c = '0' := by
    intro c member
    simpa using List.mem_takeWhile_imp (List.mem_reverse.mp member)
  refine ⟨zeros.reverse.length, ?_⟩
  rw [← List.eq_replicate_of_mem all, trimZeros, ← List.reverse_append,
    List.takeWhile_append_dropWhile, List.reverse_reverse]

theorem isDigit_toDigits (n : Nat) : ∀ c ∈ Nat.toDigits 10 n, c.isDigit = true :=
  fun _ member => Nat.isDigit_of_mem_toDigits (by decide) (by decide) member

theorem isDigit_zeros (n : Nat) : ∀ c ∈ List.replicate n '0', c.isDigit = true := by
  intro c member
  obtain ⟨-, rfl⟩ := List.mem_replicate.mp member
  decide

/-- The rank of a number with some digits after the point. -/
theorem rank_fraction (v f : Nat) :
    rank ⟨v, -(f : Int)⟩ = nearest v (powerOfTen f) := by
  cases f with
  | zero =>
      have whole : rank ⟨v, -((0 : Nat) : Int)⟩ = nearest (v * powerOfTen 0) 1 :=
        rank_ofNat (by decide) v
      rw [whole]
      exact congrArg₂ nearest (Nat.mul_one v) rfl
  | succ k => exact rank_negSucc v k

theorem powerOfTen_add (m n : Nat) : powerOfTen (m + n) = powerOfTen m * powerOfTen n :=
  Nat.pow_add 10 m n

/-- A whole number is written with the zeros of its exponent. -/
theorem exists_numeral_ofNat {c e : Nat} (below : rank ⟨c, .ofNat e⟩ < infinity) :
    ∃ whole fraction : List Char, Digits whole fraction ∧
      positional ⟨c, .ofNat e⟩ = numeral whole fraction ∧
      rank ⟨ofDigits (whole ++ fraction), -(fraction.length : Int)⟩ = rank ⟨c, .ofNat e⟩ := by
  have noFraction : ∀ c ∈ ([] : List Char), c.isDigit = true := by simp
  by_cases zero : c = 0
  · subst zero
    refine ⟨Nat.toDigits 10 0, [], ⟨Nat.toDigits_ne_nil, isDigit_toDigits 0, noFraction⟩, ?_, ?_⟩
    · simp [positional, numeral]
    · rw [List.append_nil, ofDigits_toDigits]
      simp [rank]
  · have fits : e < 309 := by
      by_contra beyond
      have isInfinity : rank ⟨c, .ofNat e⟩ = infinity := by
        simp only [rank, zero, if_false, Nat.not_lt.mp beyond, if_true]
      rw [isInfinity] at below
      exact Nat.lt_irrefl _ below
    refine ⟨Nat.toDigits 10 c ++ List.replicate e '0', [], ⟨by simp [Nat.toDigits_ne_nil], ?_,
      noFraction⟩, ?_, ?_⟩
    · intro d member
      rcases List.mem_append.mp member with digit | isZero
      · exact isDigit_toDigits c d digit
      · exact isDigit_zeros e d isZero
    · simp [positional, numeral, zero]
    · rw [List.append_nil, ofDigits_append_zeros, ofDigits_toDigits, rank_ofNat fits]
      exact rank_fraction (c * powerOfTen e) 0

/-- A fraction is written without the zeros at its end. -/
theorem exists_numeral_negSucc (c k : Nat) :
    ∃ whole fraction : List Char, Digits whole fraction ∧
      positional ⟨c, .negSucc k⟩ = numeral whole fraction ∧
      rank ⟨ofDigits (whole ++ fraction), -(fraction.length : Int)⟩ = rank ⟨c, .negSucc k⟩ := by
  let zeros := k + 2 - (Nat.toDigits 10 c).length
  let padded := List.replicate zeros '0' ++ Nat.toDigits 10 c
  let point := padded.length - (k + 1)
  have long : k + 2 ≤ padded.length := by
    simp only [padded, zeros, List.length_append, List.length_replicate]
    omega
  have digits : ∀ d ∈ padded, d.isDigit = true := by
    intro d member
    rcases List.mem_append.mp member with isZero | digit
    · exact isDigit_zeros zeros d isZero
    · exact isDigit_toDigits c d digit
  have value : ofDigits padded = c := by rw [ofDigits_zeros_append, ofDigits_toDigits]
  obtain ⟨n, trimmed⟩ := exists_zeros (padded.drop point)
  have length : (trimZeros (padded.drop point)).length + n = k + 1 := by
    have whole := congrArg List.length trimmed
    simp only [List.length_drop, List.length_append, List.length_replicate, point] at whole ⊢
    omega
  refine ⟨padded.take point, trimZeros (padded.drop point), ⟨?_, ?_, ?_⟩, ?_, ?_⟩
  · intro none_
    have short := congrArg List.length none_
    simp only [List.length_take, List.length_nil, point] at short
    omega
  · exact fun d member => digits d (List.mem_of_mem_take member)
  · intro d member
    refine digits d (List.mem_of_mem_drop (i := point) ?_)
    rw [trimmed]
    exact List.mem_append_left _ member
  · unfold positional numeral
    dsimp only
    split
    · rename_i none_
      rw [if_pos none_]
    · rename_i some_
      rw [if_neg some_]
  · have whole :
        ofDigits (padded.take point ++ trimZeros (padded.drop point)) * powerOfTen n = c := by
      rw [← ofDigits_append_zeros, List.append_assoc, ← trimmed, List.take_append_drop, value]
    rw [rank_fraction, rank_negSucc, ← length, powerOfTen_add]
    conv => rhs; rw [← whole]
    exact (nearest_mul_right _ _ (powerOfTen_positive n)).symm

/-- A decimal is written as a numeral that rounds to the same rank, if it is not
beyond every finite double. -/
theorem exists_numeral {d : Decimal} (below : d.rank < infinity) :
    ∃ whole fraction : List Char, Digits whole fraction ∧ positional d = numeral whole fraction ∧
      rank ⟨ofDigits (whole ++ fraction), -(fraction.length : Int)⟩ = d.rank := by
  obtain ⟨c, exponent⟩ := d
  cases exponent with
  | ofNat e => exact exists_numeral_ofNat below
  | negSucc k => exact exists_numeral_negSucc c k

end Decimal

/-! ## Reading what was written -/

/-- A number without its sign begins with a digit or with the point. -/
def Begins (c : Char) : Prop := c.isDigit = true ∨ c = '.'

/-- A character that numbers begin with is no sign and no letter. -/
theorem Begins.not_sign {c : Char} (begins : Begins c) :
    c ≠ '-' ∧ c ≠ '+' ∧ c.toLower ≠ 'n' ∧ c.toLower ≠ 'i' := by
  rcases begins with digit | rfl
  · have same : c.toLower = c := by
      refine dif_neg fun upper => ?_
      have least : 65 ≤ c.toNat := UInt32.le_iff_toNat_le.mp upper.1
      have greatest : c.toNat ≤ 57 := (Char.isDigit_iff_toNat.mp digit).2
      omega
    rw [same]
    refine ⟨?_, ?_, ?_, ?_⟩ <;> rintro rfl <;> exact absurd digit (by decide)
  · decide

theorem splitSign_withSign {body : List Char} {c : Char} {cs : List Char} (split : body = c :: cs)
    (begins : Begins c) (minus : Bool) :
    splitSign (withSign minus body) = (minus, body) := by
  obtain ⟨notMinus, notPlus, -⟩ := begins.not_sign
  cases minus with
  | true => rfl
  | false => simp [withSign, splitSign, split, notMinus, notPlus]

/-- What begins as a number does is read as one, after an optional minus. -/
theorem read?_withSign {body : List Char} {c : Char} {cs : List Char} (split : body = c :: cs)
    (begins : Begins c) (minus : Bool) :
    read? (withSign minus body) =
      (Decimal.readUnsigned? body).map fun d => ofRank minus d.rank := by
  obtain ⟨-, -, notN, notI⟩ := begins.not_sign
  have noWord : ∀ w : Char, ∀ ws : List Char, c.toLower ≠ w →
      body.map Char.toLower ≠ w :: ws := by
    intro w ws differs same
    rw [split] at same
    exact differs (List.cons.inj same).1
  have notNan : body.map Char.toLower ≠ "nan".toList := noWord _ _ notN
  have notInf : body.map Char.toLower ≠ "inf".toList := noWord _ _ notI
  have notInfinity : body.map Char.toLower ≠ "infinity".toList := noWord _ _ notI
  simp only [read?, splitSign_withSign split begins, notNan, notInf, notInfinity, false_or,
    if_false]

/-- A numeral after an optional minus is read as the double its digits round to. -/
theorem read?_numeral (digits : Digits whole fraction) (minus : Bool) :
    read? (withSign minus (numeral whole fraction)) =
      some (ofRank minus
        (Decimal.rank ⟨Decimal.ofDigits (whole ++ fraction), -(fraction.length : Int)⟩)) := by
  obtain ⟨c, cs, split, digit⟩ := exists_digit digits
  rw [read?_withSign split (.inl digit), Decimal.readUnsigned?_numeral digits, Option.map_some]

/-- What is written for a finite double. -/
theorem toList_display {x : Float} (finite : x.isFinite = true) :
    ∃ whole fraction : List Char, Digits whole fraction ∧
      (display x).toList = withSign (negative x) (numeral whole fraction) ∧
      Decimal.rank ⟨Decimal.ofDigits (whole ++ fraction), -(fraction.length : Int)⟩ = rank x := by
  have below := rank_lt_infinity finite
  have rounds := rank_shortest (Nat.le_of_lt below)
  obtain ⟨notNaN, notInf⟩ := not_special_of_isFinite finite
  rw [← rounds] at below
  obtain ⟨whole, fraction, digits, written, value⟩ := Decimal.exists_numeral below
  refine ⟨whole, fraction, digits, ?_, value.trans rounds⟩
  simp only [display, notNaN, notInf, Bool.false_eq_true, if_false, String.toList_ofList, written]

/-- A finite double is read back from what is written for it. -/
theorem read?_display {x : Float} (finite : x.isFinite = true) :
    read? (display x).toList = some x := by
  obtain ⟨whole, fraction, digits, written, value⟩ := toList_display finite
  rw [written, read?_numeral digits, value, ofRank_rank]

/-- What is written for a finite double is one number to the lexer. -/
theorem signedNumber_display {x : Float} (finite : x.isFinite = true) :
    signedNumber (display x).toList = (display x).toList ∧ (display x).toList ≠ [] := by
  obtain ⟨whole, fraction, digits, written, -⟩ := toList_display finite
  obtain ⟨c, cs, split, digit⟩ := exists_digit digits
  have unsigned := unsignedNumber_numeral digits
  rw [written]
  rw [split] at unsigned ⊢
  cases negative x with
  | true => exact ⟨by simp [withSign, signedNumber, unsigned], by simp [withSign]⟩
  | false =>
      have notMinus := (Begins.not_sign (.inl digit)).1
      exact ⟨by simpa [withSign, signedNumber, notMinus] using unsigned, by simp [withSign]⟩

end Formula.Number
