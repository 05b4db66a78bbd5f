/-
# Formula.Proofs.Grammar.Descent — balanced tokens are phrases

The rest of a formula is `Due` when it completes what was read so far, closes
all open groups and leaves no operand in surplus. Such tokens can be read by
descending into the grammar: a start of an operand begins a primary, an operator
continues a phrase, and what ends one closes its group or separates two
arguments of a call. As each operand has its place, none follows another, a
group that is no call contains no separator, and a call closes after exactly as
many arguments as it takes.

`exists_phrase` concludes that a formula is a phrase once a tree is built from
its tokens.
-/
import Formula.Proofs.Conversion.Balance
import Formula.Proofs.Grammar.Phrase

namespace Formula

set_option autoImplicit false

open Nesting

/-- Tokens that may follow the last one read and complete a formula, with no
operand in surplus. -/
structure Due (groups : List Group) (last : Option Token) (tokens : List Token) : Prop where
  completes : Infix.Completes last tokens
  balanced : Balanced groups last tokens 0

namespace Due

variable {groups : List Group} {last : Option Token} {token : Token} {rest : List Token}

/-- What the first of the tokens says about the groups. -/
theorem step (due : Due groups last (token :: rest)) :
    surplus groups last token = 0 ∧
      ∃ groups', Nesting.step groups last token rest.head? = .ok groups' ∧
        Due groups' (some token) rest := by
  obtain ⟨completes, balanced⟩ := due
  generalize count : 0 = n at balanced
  cases balanced with
  | cons stepped later =>
      rename_i groups' n
      have none_ : n = 0 := by omega
      subst none_
      exact ⟨by omega, groups', stepped, completes.tail, later⟩

/-- A token that changes no group. -/
theorem keep (due : Due groups last (token :: rest))
    (kept : Nesting.step groups last token rest.head? = .ok groups) :
    Due groups (some token) rest := by
  obtain ⟨-, groups', stepped, later⟩ := due.step
  obtain rfl : groups = groups' := Except.ok.inj (kept.symm.trans stepped)
  exact later

/-- Where an operand just ended, none starts. -/
theorem not_starts {t : Token} (due : Due groups (some t) (token :: rest))
    (finishes : t.category.finishes = true) : token.category.starts = false := by
  cases starts : token.category.starts with
  | false => rfl
  | true =>
      have none_ := due.step.1
      rw [surplus_of_starts starts, completed_of_finishes finishes] at none_
      cases none_

/-- Where no operand just ended, one starts. -/
theorem starts {t : Token} {tokens : List Token} (due : Due groups (some t) tokens)
    (unfinished : t.category.finishes = false) :
    ∃ first rest, tokens = first :: rest ∧ t.category.Admits first.category ∧
      first.category.starts = true := by
  cases tokens with
  | nil =>
      obtain ⟨final, isLast, finishes⟩ := due.completes.finishes
      obtain rfl : t = final := Option.some.inj isLast
      simp [unfinished] at finishes
  | cons first rest =>
      have admits := due.completes.admits t rfl
      exact ⟨first, rest, rfl, admits, Category.starts_of_admits admits unfinished⟩

/-- A group that is no call is closed as soon as its operand is complete. -/
theorem closes {t : Token} {tokens : List Token} (due : Due (none :: groups) (some t) tokens)
    (finishes : t.category.finishes = true)
    (ends : ∀ next, tokens.head? = some next → next.category ≠ .operator) :
    ∃ span rest, tokens = ⟨.closing, span⟩ :: rest ∧
      Due groups (some ⟨.closing, span⟩) rest := by
  cases tokens with
  | nil => cases due.balanced
  | cons next rest =>
      have later := due.not_starts finishes
      have other := ends next rfl
      obtain ⟨none_, groups', stepped, after⟩ := due.step
      obtain ⟨meaning, span⟩ := next
      cases meaning with
      | closing =>
          cases stepped
          exact ⟨span, rest, rfl, after⟩
      | separator => cases none_
      | operator o => exact absurd rfl other
      | _ => cases later

/-- A call either closes, with as many arguments as it takes, or goes on with
one argument more. -/
theorem continues {call : OpenCall} {t : Token} {tokens : List Token}
    (due : Due (some call :: groups) (some t) tokens) (finishes : t.category.finishes = true)
    (ends : ∀ next, tokens.head? = some next → next.category ≠ .operator) :
    (∃ span rest, tokens = ⟨.closing, span⟩ :: rest ∧ call.arguments = call.routine.arity ∧
      Due groups (some ⟨.closing, span⟩) rest) ∨
    ∃ span rest place, tokens = ⟨.separator, span⟩ :: rest ∧
      Due (some (call.nextArgument place) :: groups) (some ⟨.separator, span⟩) rest := by
  cases tokens with
  | nil => cases due.balanced
  | cons next rest =>
      have later := due.not_starts finishes
      have other := ends next rfl
      obtain ⟨none_, groups', stepped, after⟩ := due.step
      obtain ⟨meaning, span⟩ := next
      cases meaning with
      | closing =>
          simp only [Nesting.step, Option.bind_some] at stepped
          split at stepped
          · cases stepped
          · rename_i complete
            cases stepped
            have enough := le_arguments complete
            simp only [surplus] at none_
            exact .inl ⟨span, rest, rfl, by omega, after⟩
      | separator =>
          cases stepped
          exact .inr ⟨span, rest, _, rfl, after⟩
      | operator o => exact absurd rfl other
      | _ => cases later

end Due

/-! ## Descent -/

theorem Primary.tokens_positive (operand : Primary) : 0 < operand.tokens.length := by
  cases operand <;> simp [Primary.tokens]

theorem Phrase.tokens_positive (p : Phrase) : 0 < p.tokens.length := by
  cases p with
  | last operand => exact operand.tokens_positive
  | chain operand o span rest =>
      simp only [Phrase.tokens, List.length_append, List.length_cons]
      omega

mutual

/-- Where an operand is due, a primary can be read. -/
theorem Due.primary {groups : List Group} {last : Option Token} {first : Token}
    {tokens : List Token} (due : Due groups last (first :: tokens))
    (starts : first.category.starts = true) (plain : Conversion.groupAbove last.toList = none) :
    ∃ (operand : Primary) (joint : Token) (rest : List Token),
      first :: tokens = operand.tokens ++ rest ∧ joint.category.finishes = true ∧
        Due groups (some joint) rest := by
  obtain ⟨meaning, span⟩ := first
  cases meaning with
  | constant value => exact ⟨.constant value span, _, tokens, rfl, rfl, due.keep rfl⟩
  | slot index => exact ⟨.slot index span, _, tokens, rfl, rfl, due.keep rfl⟩
  | opening =>
      obtain ⟨-, groups', stepped, inside⟩ := due.step
      simp only [Nesting.step, plain, Except.ok.injEq] at stepped
      subst stepped
      obtain ⟨next, more, rfl, -, operand⟩ := inside.starts rfl
      obtain ⟨inner, joint, rest, split, finishes, ends, after⟩ := inside.phrase operand rfl
      obtain ⟨closing, rest, rfl, outside⟩ := after.closes finishes ends
      exact ⟨.group span inner closing, _, rest, by simp [Primary.tokens, split], rfl, outside⟩
  | routine r =>
      obtain ⟨next, more, rfl, admits, -⟩ := (due.keep rfl).starts rfl
      obtain ⟨-, groups', stepped, inside⟩ := (due.keep rfl).step
      have opens := Category.eq_opening_of_admits admits
      obtain ⟨meaning, opening⟩ := next
      cases meaning with
      | opening =>
          cases stepped
          obtain ⟨n, arguments, closing, rest, split, count, outside⟩ := inside.arguments rfl rfl
          have arity : n = r.arity := by simp only at count; omega
          subst arity
          exact ⟨.call r span opening arguments closing, _, rest,
            by simp [Primary.tokens, split], rfl, outside⟩
      | _ => cases opens
  | operator o => cases starts
  | separator => cases starts
  | closing => cases starts
termination_by 3 * tokens.length + 3

/-- Where an operand is due, a phrase can be read, up to a token that is no operator. -/
theorem Due.phrase {groups : List Group} {last : Option Token} {first : Token}
    {tokens : List Token} (due : Due groups last (first :: tokens))
    (starts : first.category.starts = true) (plain : Conversion.groupAbove last.toList = none) :
    ∃ (p : Phrase) (joint : Token) (rest : List Token),
      first :: tokens = p.tokens ++ rest ∧ joint.category.finishes = true ∧
        (∀ next, rest.head? = some next → next.category ≠ .operator) ∧
        Due groups (some joint) rest := by
  obtain ⟨operand, joint, rest, split, finishes, after⟩ := due.primary starts plain
  have positive := operand.tokens_positive
  have length := congrArg List.length split
  rw [List.length_append, List.length_cons] at length
  cases rest with
  | nil => exact ⟨.last operand, joint, [], split, finishes, by simp, after⟩
  | cons next rest =>
      obtain ⟨meaning, span⟩ := next
      cases meaning with
      | operator o =>
          have later := after.keep rfl
          obtain ⟨second, more, rfl, -, operand'⟩ := later.starts rfl
          have shorter : more.length < tokens.length := by
            simp only [List.length_cons] at length
            omega
          obtain ⟨p, joint', rest', split', finishes', ends, after'⟩ := later.phrase operand' rfl
          exact ⟨.chain operand o span p, joint', rest',
            by simp [Phrase.tokens, split, split'], finishes', ends, after'⟩
      | _ => exact ⟨.last operand, joint, _, split, finishes, by rintro t ⟨⟩; simp, after⟩
termination_by 3 * tokens.length + 4

/-- In a call, as many arguments can be read as it still takes. -/
theorem Due.arguments {groups : List Group} {last : Token} {call : OpenCall}
    {tokens : List Token} (due : Due (some call :: groups) (some last) tokens)
    (unfinished : last.category.finishes = false)
    (plain : Conversion.groupAbove [last] = none) :
    ∃ (n : Nat) (arguments : Arguments n) (closing : Span) (rest : List Token),
      tokens = arguments.tokens ++ ⟨.closing, closing⟩ :: rest ∧
        call.arguments + n = call.routine.arity + 1 ∧
        Due groups (some ⟨.closing, closing⟩) rest := by
  obtain ⟨first, more, whole, -, starts⟩ := due.starts unfinished
  rw [whole] at due
  have size : tokens.length = more.length + 1 := by rw [whole, List.length_cons]
  obtain ⟨p, joint, rest, split, finishes, ends, after⟩ := due.phrase starts plain
  have positive := p.tokens_positive
  have length := congrArg List.length split
  rw [List.length_append, List.length_cons] at length
  rcases after.continues finishes ends with
    ⟨closing, rest, rfl, full, outside⟩ | ⟨separator, rest, place, rfl, later⟩
  · exact ⟨1, .last p, closing, rest, by simp [whole, Arguments.tokens, split], by omega, outside⟩
  · have shorter : rest.length < tokens.length := by
      rw [List.length_cons] at length
      omega
    obtain ⟨n, others, closing, rest, rfl, count, outside⟩ := later.arguments rfl rfl
    refine ⟨n + 1, .more p separator others, closing, rest,
      by simp [whole, Arguments.tokens, split], ?_, outside⟩
    simp only [OpenCall.nextArgument] at count
    omega
termination_by 3 * tokens.length + 2

end

/-- The tokens that a tree is built from are those of a phrase. -/
theorem exists_phrase {tokens : List Token} {t : Tree} (built : treeOfTokens tokens = .ok t) :
    ∃ p : Phrase, p.tokens = tokens := by
  obtain ⟨ordered, balanced⟩ := balanced_of_tree built
  have due : Due [] none tokens := ⟨ordered.completes, balanced⟩
  obtain ⟨first, isFirst, starts⟩ := ordered.starts
  obtain ⟨rest, rfl⟩ : ∃ rest, tokens = first :: rest := by
    cases tokens with
    | nil => cases isFirst
    | cons t rest =>
        cases isFirst
        exact ⟨rest, rfl⟩
  obtain ⟨p, joint, rest, split, finishes, ends, after⟩ := due.phrase starts rfl
  cases rest with
  | nil => exact ⟨p, by simpa using split.symm⟩
  | cons next rest =>
      have later := after.not_starts finishes
      have other := ends next rfl
      obtain ⟨-, groups', stepped, -⟩ := after.step
      obtain ⟨meaning, span⟩ := next
      cases meaning with
      | operator o => exact absurd rfl other
      | separator => cases stepped
      | closing => cases stepped
      | _ => cases later

end Formula
