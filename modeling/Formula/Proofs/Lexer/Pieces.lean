/-
# Formula.Proofs.Lexer.Pieces — the piece of text that is taken for a token

What a lexer takes at a position can be said without saying how it looks for it:
it is the longest piece of some kind that starts there. The kinds are numbers
(`IsNumeral`), words (`IsWord`), the operator symbols of a registry (`IsSymbol`) and
the marks of the grammar. A kind counts only where no piece of an earlier one
starts (`Takes`).

The pattern of a registry takes exactly these pieces (`takes_iff`): what it cuts
off for a number or a word is as long as it can be (`Greedy`), and its symbols are
tried from the longest to the shortest.
-/
import Formula.Proofs.Lexer.Reading
import Formula.Proofs.Number.Display

namespace Formula

set_option autoImplicit false

/-! ## Greedy cuts -/

section Greedy

variable {kind : List Char → Prop} {piece text : List Char}

/-- A way to cut a piece off a text that takes a piece of a kind if it takes
anything, and covers every such piece. -/
structure Greedy (kind : List Char → Prop) (taken : List Char → List Char) : Prop where
  some_ : ¬ kind []
  leads : ∀ text, taken text <+: text
  ofKind : ∀ text, taken text ≠ [] → kind (taken text)
  covers : ∀ piece text, kind piece → piece <+: text → piece <+: taken text

variable {taken : List Char → List Char}

theorem Greedy.ne_nil (greedy : Greedy kind taken) (ofKind : kind piece) (leads : piece <+: text) :
    taken text ≠ [] := by
  intro nothing
  have covers := greedy.covers piece text ofKind leads
  rw [nothing, List.prefix_nil] at covers
  exact greedy.some_ (covers ▸ ofKind)

theorem Greedy.longest_iff (greedy : Greedy kind taken) :
    Longest kind piece text ↔ taken text ≠ [] ∧ taken text = piece := by
  constructor
  · intro longest
    have some_ := greedy.ne_nil longest.ofKind longest.leads
    have covers := greedy.covers piece text longest.ofKind longest.leads
    have within := longest.longest _ (greedy.ofKind text some_) (greedy.leads text)
    exact ⟨some_, (covers.eq_of_length_le within).symm⟩
  · rintro ⟨some_, rfl⟩
    exact ⟨greedy.ofKind text some_, greedy.leads text,
      fun other ofKind leads => (greedy.covers other text ofKind leads).length_le⟩

theorem Greedy.lacks_iff (greedy : Greedy kind taken) : Lacks kind text ↔ taken text = [] := by
  constructor
  · intro lacks
    by_contra some_
    exact lacks _ (greedy.ofKind text some_) (greedy.leads text)
  · exact fun nothing piece ofKind leads => greedy.ne_nil ofKind leads nothing

end Greedy

/-! ## Numbers -/

/-- Digits with an optional point and more digits, or a point and digits. -/
inductive IsUnsigned : List Char → Prop where
  | whole {digits : List Char} :
    digits ≠ [] → (∀ c ∈ digits, c.isDigit = true) → IsUnsigned digits
  | mixed {digits fraction : List Char} :
    digits ≠ [] → (∀ c ∈ digits, c.isDigit = true) → (∀ c ∈ fraction, c.isDigit = true) →
    IsUnsigned (digits ++ '.' :: fraction)
  | fraction {fraction : List Char} :
    fraction ≠ [] → (∀ c ∈ fraction, c.isDigit = true) → IsUnsigned ('.' :: fraction)

/-- An unsigned number, or one with a minus directly before it. -/
inductive IsNumeral : List Char → Prop where
  | unsigned {text : List Char} : IsUnsigned text → IsNumeral text
  | signed {text : List Char} : IsUnsigned text → IsNumeral ('-' :: text)

theorem isDigit_of_mem_takeWhile {cs : List Char} :
    ∀ c ∈ cs.takeWhile Char.isDigit, c.isDigit = true := fun _ => List.mem_takeWhile_imp

theorem isUnsigned_unsignedNumber (text : List Char) :
    unsignedNumber text = [] ∨ IsUnsigned (unsignedNumber text) := by
  unfold unsignedNumber
  dsimp only
  split
  · rename_i rest _
    split
    · exact .inl rfl
    · rename_i either
      by_cases none_ : text.takeWhile Char.isDigit = []
      · rw [none_]
        exact .inr (.fraction (fun nothing => either ⟨none_, nothing⟩) isDigit_of_mem_takeWhile)
      · exact .inr (.mixed none_ isDigit_of_mem_takeWhile isDigit_of_mem_takeWhile)
  · by_cases none_ : text.takeWhile Char.isDigit = []
    · exact .inl none_
    · exact .inr (.whole none_ isDigit_of_mem_takeWhile)

theorem takeWhile_append_digits {digits : List Char} (all : ∀ c ∈ digits, c.isDigit = true)
    (rest : List Char) : digits <+: (digits ++ rest).takeWhile Char.isDigit := by
  rw [List.takeWhile_append_of_pos all]
  exact List.prefix_append ..

theorem leads_unsignedNumber {piece text : List Char} (number : IsUnsigned piece)
    (leads : piece <+: text) : piece <+: unsignedNumber text := by
  obtain ⟨rest, rfl⟩ := leads
  cases number with
  | whole some_ all =>
      have digits := takeWhile_append_digits all rest
      unfold unsignedNumber
      dsimp only
      split
      · split
        · rename_i nothing
          rw [nothing.1, List.prefix_nil] at digits
          exact absurd digits some_
        · exact digits.trans (List.prefix_append ..)
      · exact digits
  | @mixed digits fraction some_ all more =>
      obtain ⟨taken, dropped⟩ := Number.takeWhile_digits_point all (fraction ++ rest)
      rw [List.append_assoc, List.cons_append]
      simp only [unsignedNumber, taken, dropped, some_, false_and, if_false]
      rw [List.prefix_append_right_inj, List.cons_prefix_cons]
      exact ⟨rfl, takeWhile_append_digits more rest⟩
  | @fraction fraction some_ more =>
      have digits := takeWhile_append_digits more rest
      have some' : (fraction ++ rest).takeWhile Char.isDigit ≠ [] := by
        intro nothing
        rw [nothing, List.prefix_nil] at digits
        exact some_ digits
      have point : Char.isDigit '.' = false := by decide
      simp only [unsignedNumber, List.cons_append, List.takeWhile_cons, List.dropWhile_cons, point,
        Bool.false_eq_true, if_false, some', and_false, List.nil_append, List.cons_prefix_cons]
      exact ⟨trivial, digits⟩

theorem IsUnsigned.ne_nil {text : List Char} (number : IsUnsigned text) : text ≠ [] := by
  cases number with
  | whole some_ => exact some_
  | mixed => simp
  | fraction => simp

/-- No unsigned number starts with a minus. -/
theorem not_isUnsigned_minus (text : List Char) : ¬ IsUnsigned ('-' :: text) := by
  intro number
  have leads := leads_unsignedNumber number (List.prefix_refl _)
  have minus : Char.isDigit '-' = false := by decide
  simp [unsignedNumber, minus] at leads

theorem signedNumber_minus (cs : List Char) :
    signedNumber ('-' :: cs) = if unsignedNumber cs = [] then [] else '-' :: unsignedNumber cs := by
  simp only [signedNumber]
  cases unsignedNumber cs <;> rfl

theorem signedNumber_of_ne {c : Char} (notMinus : c ≠ '-') (cs : List Char) :
    signedNumber (c :: cs) = unsignedNumber (c :: cs) := by
  simp [signedNumber, notMinus]

theorem greedy_signedNumber : Greedy IsNumeral signedNumber where
  some_ number := by
    cases number with
    | unsigned number => exact number.ne_nil rfl
  leads text := ⟨_, signedNumber_append text⟩
  ofKind text some_ := by
    cases text with
    | nil => exact absurd rfl some_
    | cons c cs =>
        by_cases minus : c = '-'
        · subst minus
          rw [signedNumber_minus] at some_ ⊢
          split
          · rename_i nothing
            simp [nothing] at some_
          · rename_i nonempty
            exact .signed ((isUnsigned_unsignedNumber cs).resolve_left nonempty)
        · rw [signedNumber_of_ne minus] at some_ ⊢
          exact .unsigned ((isUnsigned_unsignedNumber _).resolve_left some_)
  covers piece text number leads := by
    cases number with
    | unsigned number =>
        cases text with
        | nil => exact absurd (List.prefix_nil.mp leads) number.ne_nil
        | cons c cs =>
            by_cases minus : c = '-'
            · obtain ⟨d, ds, rfl⟩ := List.exists_cons_of_ne_nil number.ne_nil
              obtain ⟨rfl, -⟩ := List.cons_prefix_cons.mp leads
              exact absurd (minus ▸ number) (not_isUnsigned_minus ds)
            · rw [signedNumber_of_ne minus]
              exact leads_unsignedNumber number leads
    | @signed digits number =>
        obtain ⟨rest, rfl⟩ := leads
        have covers := leads_unsignedNumber number (List.prefix_append digits rest)
        have some_ : unsignedNumber (digits ++ rest) ≠ [] := by
          intro nothing
          rw [nothing, List.prefix_nil] at covers
          exact number.ne_nil covers
        rw [List.cons_append, signedNumber_minus, if_neg some_, List.cons_prefix_cons]
        exact ⟨rfl, covers⟩

/-! ## Words -/

/-- Some ASCII letters. -/
def IsWord (text : List Char) : Prop := text ≠ [] ∧ ∀ c ∈ text, c.isAlpha = true

theorem greedy_word : Greedy IsWord word where
  some_ letters := letters.1 rfl
  leads text := ⟨_, word_append text⟩
  ofKind text some_ := ⟨some_, fun _ => List.mem_takeWhile_imp⟩
  covers piece text letters leads := by
    obtain ⟨rest, rfl⟩ := leads
    rw [word, List.takeWhile_append_of_pos letters.2]
    exact List.prefix_append ..

/-! ## Symbols -/

/-- The symbol of an operator that a registry holds. -/
def IsSymbol (registry : Registry) (text : List Char) : Prop :=
  ∃ o, registry.operator? (String.ofList text) = some o

namespace Registry

variable {r : Registry}

theorem Lawful.mem_pattern_iff (lawful : r.Lawful) {symbol : List Char} :
    symbol ∈ r.pattern.symbols ↔ IsSymbol r symbol := by
  constructor
  · rw [lawful.current, freshPattern, Pattern.mem_ofSymbols]
    rintro ⟨text, listed, rfl⟩
    obtain ⟨o, known, rfl⟩ := List.mem_map.mp listed
    rw [IsSymbol, String.ofList_toList, ← Option.isSome_iff_exists, operator?, List.find?_isSome]
    exact ⟨o, known, by simp⟩
  · rintro ⟨o, found⟩
    have known := lawful.mem_pattern found
    rwa [String.toList_ofList] at known

end Registry

/-! ## What is taken -/

/-- The piece that is taken at the start of a text: the longest number, else the
longest word, else the longest symbol of the registry, else a mark of the grammar. -/
inductive Takes (registry : Registry) (text : List Char) : Shape → List Char → Prop where
  | number {piece : List Char} : Longest IsNumeral piece text → Takes registry text .number piece
  | word {piece : List Char} : Lacks IsNumeral text → Longest IsWord piece text →
    Takes registry text .word piece
  | symbol {piece : List Char} : Lacks IsNumeral text → Lacks IsWord text →
    Longest (IsSymbol registry) piece text → Takes registry text .mark piece
  | punctuation {c : Char} : Lacks IsNumeral text → Lacks IsWord text →
    Lacks (IsSymbol registry) text → text.head? = some c → isPunctuation c = true →
    Takes registry text .mark [c]

theorem Takes.isNumeral {registry : Registry} {text piece : List Char}
    (takes : Takes registry text .number piece) : IsNumeral piece := by
  cases takes with
  | number longest => exact longest.ofKind

theorem takes_iff {registry : Registry} (lawful : registry.Lawful) {text piece : List Char}
    {shape : Shape} :
    Takes registry text shape piece ↔ registry.pattern.lexeme? text = some (shape, piece) := by
  have symbols : (· ∈ registry.pattern.symbols) = IsSymbol registry := by
    funext symbol
    exact propext lawful.mem_pattern_iff
  have longest : ∀ s, registry.pattern.symbol? text = some s ↔ _ := fun s =>
    lawful.pattern.symbol?_eq_some_iff
  have lacks : registry.pattern.symbol? text = none ↔ _ := lawful.pattern.symbol?_eq_none_iff
  rw [symbols] at longest lacks
  unfold Pattern.lexeme?
  constructor
  · intro takes
    cases takes with
    | number number =>
        obtain ⟨some_, rfl⟩ := greedy_signedNumber.longest_iff.mp number
        rw [if_pos some_]
    | word noNumber letters =>
        obtain ⟨some_, rfl⟩ := greedy_word.longest_iff.mp letters
        rw [greedy_signedNumber.lacks_iff.mp noNumber, if_neg (by simp), if_pos some_]
    | symbol noNumber noWord symbol =>
        rw [greedy_signedNumber.lacks_iff.mp noNumber, greedy_word.lacks_iff.mp noWord,
          (longest _).mpr symbol]
        simp
    | punctuation noNumber noWord noSymbol first mark =>
        rw [greedy_signedNumber.lacks_iff.mp noNumber, greedy_word.lacks_iff.mp noWord,
          lacks.mpr noSymbol, first]
        simp [mark]
  · intro found
    split at found
    · cases found
      exact .number (greedy_signedNumber.longest_iff.mpr ⟨‹_›, rfl⟩)
    rename_i noNumber
    replace noNumber := greedy_signedNumber.lacks_iff.mpr (Decidable.of_not_not noNumber)
    split at found
    · cases found
      exact .word noNumber (greedy_word.longest_iff.mpr ⟨‹_›, rfl⟩)
    rename_i noWord
    replace noWord := greedy_word.lacks_iff.mpr (Decidable.of_not_not noWord)
    split at found
    · cases found
      exact .symbol noNumber noWord ((longest _).mp ‹_›)
    · rename_i noSymbol
      obtain ⟨c, filtered, same⟩ := Option.map_eq_some_iff.mp found
      obtain ⟨first, mark⟩ := Option.filter_eq_some_iff.mp filtered
      cases same
      exact .punctuation noNumber noWord (lacks.mp noSymbol) first mark

end Formula
