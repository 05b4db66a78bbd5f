/-
# Formula.Proofs.Grammar.Viable — the check stops at the first hopeless token

Some tokens are viable if tokens that the check accepts begin with them. That is so
when an expression may start with the first of them and each may follow the one before
it: the last one then says what it takes to complete them (`viable_iff`).

The check makes its tests one after the other, and whichever of them fails, the fault
is at the earliest token that cannot be right: what stands before the token is viable,
and with the token it no longer is. The one exception is a last token that ends too
early, where more would have to follow (`check_stops`).
-/
import Formula.Proofs.Grammar.Order

namespace Formula.Infix

set_option autoImplicit false

/-- Accepted tokens begin with these. -/
def Viable (tokens : List Token) : Prop :=
  ∃ more, check (tokens ++ more) = .ok (tokens ++ more)

/-- Nothing is wrong with some tokens, whatever comes after them. -/
structure Begun (tokens : List Token) : Prop where
  starts : ∀ first, tokens.head? = some first → first.category.starts = true
  chain : tokens.IsChain fun current next => current.category.Admits next.category

theorem Begun.of_append {tokens more : List Token} (begun : Begun (tokens ++ more)) :
    Begun tokens where
  starts first isFirst := begun.starts first (List.mem_head?_append_of_mem_head? isFirst)
  chain := (List.isChain_append.mp begun.chain).1

theorem Ordered.begun {tokens : List Token} (ordered : Ordered tokens) : Begun tokens where
  starts first isFirst := by
    obtain ⟨other, isOther, starts⟩ := ordered.starts
    obtain rfl := Option.some.inj (isFirst.symm.trans isOther)
    exact starts
  chain := ordered.chain

/-- An operand, to complete something with. -/
def anOperand : Token := ⟨.slot 0, ⟨0, 0⟩⟩

/-- What completes tokens that end with one of the given category. -/
def completion : Category → List Token
  | .constant | .closing => []
  | .opening | .separator | .operator => [anOperand]
  | .routine => [⟨.opening, ⟨0, 0⟩⟩, anOperand]

/-- Tokens with which nothing is wrong are completed by what their last one asks for. -/
theorem Begun.ordered {tokens : List Token} {last : Token} (begun : Begun tokens)
    (isLast : tokens.getLast? = some last) : Ordered (tokens ++ completion last.category) := by
  have some_ : tokens ≠ [] := by
    rintro rfl
    cases isLast
  have isFirst := List.head?_eq_some_head some_
  refine ⟨⟨_, List.mem_head?_append_of_mem_head? isFirst, begun.starts _ isFirst⟩, ?chain, ?ends⟩
  case chain =>
    refine List.isChain_append.mpr ⟨begun.chain, ?_, fun x isX y isY => ?_⟩
    · cases last.category <;> simp [completion, anOperand, Category.Admits, Category.clash?]
    · obtain rfl := Option.some.inj (isLast.symm.trans isX)
      cases category : last.category <;> rw [category] at isY <;> cases isY <;> rfl
  case ends =>
    rw [List.getLast?_append]
    cases category : last.category
    case constant => exact ⟨last, isLast, by simp [category]⟩
    case closing => exact ⟨last, isLast, by simp [category]⟩
    all_goals exact ⟨anOperand, rfl, rfl⟩

theorem viable_iff {tokens : List Token} : Viable tokens ↔ Begun tokens := by
  constructor
  · rintro ⟨more, accepted⟩
    exact (check_eq_ok_iff.mp accepted).2.begun.of_append
  · intro begun
    cases isLast : tokens.getLast? with
    | none =>
        rw [List.getLast?_eq_none_iff] at isLast
        subst isLast
        exact ⟨[anOperand], check_eq_ok_iff.mpr ⟨rfl, .singleton rfl⟩⟩
    | some last => exact ⟨_, check_eq_ok_iff.mpr ⟨rfl, begun.ordered isLast⟩⟩

/-! ## Where the check stops -/

/-- The check stops at a token: what is before it is viable, and it either spoils that
or comes last and leaves something to be completed. -/
def StopsAt (tokens : List Token) (fault : Fault) : Prop :=
  ∃ (before : List Token) (t : Token) (after : List Token) (reason : Misplacement),
    tokens = before ++ t :: after ∧ fault = .misplaced reason t.span ∧ Viable before ∧
      (¬ Viable (before ++ [t]) ∨ (after = [] ∧ Viable tokens))

/-- Of two neighbours that clash, the first is the end of tokens among which none do. -/
theorem exists_clash {tokens : List Token} {fault : Fault}
    (clashes : firstClash? tokens = some fault) :
    ∃ (before : List Token) (current next : Token) (after : List Token) (reason : Misplacement),
      tokens = before ++ current :: next :: after ∧ fault = .misplaced reason next.span ∧
        ¬ current.category.Admits next.category ∧
        (before ++ [current]).IsChain fun t u => t.category.Admits u.category := by
  induction tokens with
  | nil => cases clashes
  | cons first rest ih =>
      cases rest with
      | nil => cases clashes
      | cons second rest =>
          rw [firstClash?] at clashes
          cases clash : first.category.clash? second.category with
          | some reason =>
              rw [clash] at clashes
              cases clashes
              refine ⟨[], first, second, rest, reason, rfl, rfl, ?_, List.isChain_singleton _⟩
              simp [Category.Admits, clash]
          | none =>
              rw [clash] at clashes
              obtain ⟨before, current, next, after, reason, split, rfl, refuses, chain⟩ :=
                ih clashes
              refine ⟨first :: before, current, next, after, reason, by rw [split]; rfl, rfl,
                refuses, ?_⟩
              rw [List.cons_append, List.isChain_cons]
              refine ⟨fun head isHead => ?_, chain⟩
              have same : second = head := by
                cases before with
                | nil =>
                    cases split
                    exact Option.some.inj isHead
                | cons t before =>
                    cases split
                    exact Option.some.inj isHead
              exact same ▸ clash

/-- The first token spoils everything if no expression starts with it. -/
theorem stopsAt_first {first : Token} (wrong : first.category.starts = false) (rest : List Token)
    (reason : Misplacement) : StopsAt (first :: rest) (.misplaced reason first.span) := by
  have empty : Viable [] := viable_iff.mpr ⟨by simp, .nil⟩
  refine ⟨[], first, rest, reason, rfl, rfl, empty, .inl fun viable => ?_⟩
  have starts := (viable_iff.mp viable).starts first rfl
  rw [wrong] at starts
  cases starts

/-- The last token leaves something to be completed if nothing else is wrong. -/
theorem stopsAt_last {tokens : List Token} (begun : Begun tokens) (some_ : tokens ≠ [])
    (reason : Misplacement) :
    StopsAt tokens (.misplaced reason (tokens.getLast some_).span) := by
  have split : tokens = tokens.dropLast ++ [tokens.getLast some_] :=
    (List.dropLast_append_getLast some_).symm
  have before : Begun tokens.dropLast := by
    rw [split] at begun
    exact begun.of_append
  exact ⟨_, _, [], reason, split, rfl, viable_iff.mpr before, .inr ⟨rfl, viable_iff.mpr begun⟩⟩

/-- The second of two neighbours that clash spoils what was right before. -/
theorem stopsAt_clash {first : Token} {rest : List Token} {fault : Fault}
    (starts : first.category.starts = true)
    (clashes : firstClash? (first :: rest) = some fault) : StopsAt (first :: rest) fault := by
  obtain ⟨before, current, next, after, reason, split, rfl, refuses, chain⟩ :=
    exists_clash clashes
  rw [List.append_cons] at split
  refine ⟨before ++ [current], next, after, reason, split, rfl,
    viable_iff.mpr ⟨fun t isFirst => ?_, chain⟩, .inl fun viable => ?_⟩
  · have same : (first :: rest).head? = some t := by
      rw [split]
      exact List.mem_head?_append_of_mem_head? isFirst
    cases same
    exact starts
  · have joined := (viable_iff.mp viable).chain
    rw [List.append_assoc] at joined
    exact refuses (List.isChain_cons_cons.mp (List.isChain_append.mp joined).2.1).1

/-- Whichever test fails, the check stops at the token that the fault is at. -/
theorem stopsAt_of_fault? {first : Token} {rest : List Token} {fault : Fault}
    (found : fault? (first :: rest) = some fault) : StopsAt (first :: rest) fault := by
  have begun : first.category.starts = true →
      (first :: rest).IsChain (fun t u => t.category.Admits u.category) →
        Begun (first :: rest) := by
    intro starts chain
    refine ⟨?_, chain⟩
    rintro t ⟨⟩
    exact starts
  simp only [fault?] at found
  split at found
  · rename_i lone
    cases found
    obtain ⟨rfl, -⟩ : rest = [] ∧ first.category ≠ .constant := by simpa using lone
    by_cases starts : first.category.starts = true
    · exact stopsAt_last (begun starts (List.isChain_singleton first)) (List.cons_ne_nil _ _) _
    · exact stopsAt_first (by simpa using starts) [] _
  split at found
  · rename_i wrong
    cases found
    exact stopsAt_first (by simpa using wrong) rest _
  rename_i starts
  replace starts : first.category.starts = true := by simpa using starts
  split at found
  · rename_i clashes
    cases found
    exact stopsAt_clash starts clashes
  · rename_i chain
    split at found
    · cases found
    · cases found
      exact stopsAt_last (begun starts (firstClash?_eq_none_iff.mp chain)) _ _

/-! ## What the check accepts -/

/-- Tokens in the order of an expression, by what may begin and end it and by what has
to follow what. -/
structure Sequenced (tokens : List Token) : Prop where
  first : ∀ t ∈ tokens.head?,
    t.category ≠ .closing ∧ t.category ≠ .separator ∧ t.category ≠ .operator
  last : ∀ t ∈ tokens.getLast?, t.category ≠ .opening ∧ t.category ≠ .separator ∧
    t.category ≠ .operator ∧ t.category ≠ .routine
  neighbours : tokens.IsChain fun t u =>
    (t.category = .opening ∨ t.category = .separator ∨ t.category = .operator →
      u.category = .constant ∨ u.category = .opening ∨ u.category = .routine) ∧
    (t.category = .routine → u.category = .opening)

theorem ordered_iff_sequenced {tokens : List Token} (some_ : tokens ≠ []) :
    Ordered tokens ↔ Sequenced tokens := by
  have isFirst := List.head?_eq_some_head some_
  have isLast := List.getLast?_eq_some_getLast some_
  have starts : ∀ c : Category,
      c.starts = true ↔ c ≠ .closing ∧ c ≠ .separator ∧ c ≠ .operator := by
    intro c
    cases c <;> decide
  have finishes : ∀ c : Category, c.finishes = true ↔
      c ≠ .opening ∧ c ≠ .separator ∧ c ≠ .operator ∧ c ≠ .routine := by
    intro c
    cases c <;> decide
  have admits : ∀ c next : Category, c.Admits next ↔
      (c = .opening ∨ c = .separator ∨ c = .operator →
        next = .constant ∨ next = .opening ∨ next = .routine) ∧
      (c = .routine → next = .opening) := by
    intro c next
    cases c <;> cases next <;> simp [Category.Admits, Category.clash?]
  constructor
  · rintro ⟨⟨first, isFirst', begins⟩, chain, ⟨last, isLast', ends⟩⟩
    refine ⟨fun t isT => ?_, fun t isT => ?_, chain.imp fun t u => (admits _ _).mp⟩
    · obtain rfl := Option.some.inj (isFirst'.symm.trans isT)
      exact (starts _).mp begins
    · obtain rfl := Option.some.inj (isLast'.symm.trans isT)
      exact (finishes _).mp ends
  · rintro ⟨begins, ends, chain⟩
    exact ⟨⟨_, isFirst, (starts _).mpr (begins _ isFirst)⟩,
      chain.imp fun t u => (admits _ _).mpr, ⟨_, isLast, (finishes _).mpr (ends _ isLast)⟩⟩

/-- The check hands some tokens back as they are or stops at one of them, of which
everything before it could have been right; and it hands back exactly those in the order
of an expression. -/
theorem check_stops (first : Token) (rest : List Token) :
    (check (first :: rest) = .ok (first :: rest) ∨
      ∃ fault, check (first :: rest) = .error fault ∧ StopsAt (first :: rest) fault) ∧
      (check (first :: rest) = .ok (first :: rest) ↔ Sequenced (first :: rest)) := by
  constructor
  · rw [check]
    cases found : fault? (first :: rest) with
    | none => exact .inl rfl
    | some fault => exact .inr ⟨fault, rfl, stopsAt_of_fault? found⟩
  · rw [check_eq_ok_iff, ordered_iff_sequenced (List.cons_ne_nil first rest)]
    simp

end Formula.Infix
