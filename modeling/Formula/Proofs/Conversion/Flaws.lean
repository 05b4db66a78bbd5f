/-
# Formula.Proofs.Conversion.Flaws — which fault the conversion finds

Parentheses are `Paired` when every one has its partner. A token is a *flaw* after
the ones before it (`Flaw`) if it ends or divides a group and none is open, or if it
closes a call with another number of arguments than the routine takes. The
arguments of a call are those between the separators directly inside its
parentheses; `followers` lists the tokens that begin them, from the second on.

The conversion stops at the first flaw, with its fault. If there is none it ends
with the last opening parenthesis that has no partner, and succeeds if there is no
such parenthesis either (`conversion_faults_classified`). The invariant behind it
ties each open group to the tokens before and after its parenthesis (`Nested`).
-/
import Formula.Proofs.Conversion.Nesting

namespace Formula

set_option autoImplicit false

/-! ## Partners -/

/-- The parentheses that are open after a token, newest first, if some were before. -/
def openAfter (opened : List Token) (token : Token) : List Token :=
  match token.category with
  | .opening => token :: opened
  | .closing => opened.tail
  | _ => opened

/-- Every parenthesis has its partner. -/
inductive Paired : List Token → Prop where
  | nil : Paired []
  | other {tokens : List Token} {token : Token} : Paired tokens → token.category ≠ .opening →
    token.category ≠ .closing → Paired (tokens ++ [token])
  | group {tokens inside : List Token} {opening closing : Token} : Paired tokens →
    opening.category = .opening → Paired inside → closing.category = .closing →
    Paired (tokens ++ opening :: (inside ++ [closing]))

section Partners

variable {tokens inside : List Token} {token opening closing : Token}

theorem openAfter_opening (opens : opening.category = .opening) (opened : List Token) :
    openAfter opened opening = opening :: opened := by
  simp only [openAfter, opens]

theorem openAfter_closing (closes : closing.category = .closing) (opened : List Token) :
    openAfter opened closing = opened.tail := by
  simp only [openAfter, closes]

theorem openAfter_other (notOpening : token.category ≠ .opening)
    (notClosing : token.category ≠ .closing) (opened : List Token) :
    openAfter opened token = opened := by
  unfold openAfter
  split
  · exact absurd ‹_› notOpening
  · exact absurd ‹_› notClosing
  · rfl

/-- What is open before paired tokens is open after them. -/
theorem Paired.foldl_openAfter (paired : Paired tokens) :
    ∀ opened, tokens.foldl openAfter opened = opened := by
  induction paired with
  | nil => exact fun _ => rfl
  | other _ notOpening notClosing ih =>
      intro opened
      rw [List.foldl_append, ih]
      exact openAfter_other notOpening notClosing opened
  | group _ opens _ closes ihTokens ihInside =>
      intro opened
      rw [List.foldl_append, ihTokens, List.foldl_cons, List.foldl_append, ihInside,
        openAfter_opening opens]
      exact openAfter_closing closes _

theorem foldl_openAfter_open (opens : opening.category = .opening) (paired : Paired inside)
    (outer opened : List Token) : (outer ++ opening :: inside).foldl openAfter opened =
      opening :: outer.foldl openAfter opened := by
  rw [List.foldl_append, List.foldl_cons, paired.foldl_openAfter, openAfter_opening opens]

/-- Two places in a list are the same, or one comes before the other. -/
theorem places_cases {α : Type} {xs xs' ys ys' : List α} {a a' : α}
    (same : xs ++ a :: ys = xs' ++ a' :: ys') :
    (xs = xs' ∧ a = a' ∧ ys = ys') ∨
      (∃ between, xs' = xs ++ a :: between ∧ ys = between ++ a' :: ys') ∨
      ∃ between, xs = xs' ++ a' :: between ∧ ys' = between ++ a :: ys := by
  rcases List.append_eq_append_iff.mp same with ⟨between, rfl, rest⟩ | ⟨between, rfl, rest⟩
  · rcases List.cons_eq_append_iff.mp rest with ⟨rfl, rest⟩ | ⟨between, rfl, rfl⟩
    · cases rest
      exact .inl ⟨(List.append_nil _).symm, rfl, rfl⟩
    · exact .inr (.inl ⟨between, rfl, rfl⟩)
  · rcases List.cons_eq_append_iff.mp rest with ⟨rfl, rest⟩ | ⟨between, rfl, rfl⟩
    · cases rest
      exact .inl ⟨List.append_nil _, rfl, rfl⟩
    · exact .inr (.inr ⟨between, rfl, rfl⟩)

/-- A parenthesis with paired tokens after it has no partner. -/
theorem not_paired_open {outer : List Token} (opens : opening.category = .opening)
    (paired : Paired inside) : ¬ Paired (outer ++ opening :: inside) := by
  intro whole
  have nothing := whole.foldl_openAfter []
  rw [foldl_openAfter_open opens paired] at nothing
  cases nothing

/-- There is only one last parenthesis without a partner. -/
theorem lastOpen_unique {outer outer' inside' : List Token} {opening' : Token}
    (opens : opening.category = .opening) (paired : Paired inside)
    (opens' : opening'.category = .opening) (paired' : Paired inside')
    (same : outer ++ opening :: inside = outer' ++ opening' :: inside') :
    outer = outer' ∧ opening = opening' ∧ inside = inside' := by
  rcases places_cases same with equal | ⟨between, -, rfl⟩ | ⟨between, -, rfl⟩
  · exact equal
  · exact absurd paired (not_paired_open opens' paired')
  · exact absurd paired' (not_paired_open opens paired)

end Partners

/-! ## Separators directly inside -/

/-- The tokens right after the separators that are in no parentheses, if some
parentheses are open before the first token. -/
def followers (opened : List Token) : List Token → List Token
  | [] => []
  | token :: rest =>
    (if opened.isEmpty ∧ token.category = .separator then rest.head?.toList else []) ++
      followers (openAfter opened token) rest

section Followers

variable {inside : List Token} {token : Token}

theorem followers_singleton (opened : List Token) (token : Token) :
    followers opened [token] = [] := by
  simp [followers]

/-- What follows a separator is the token after it, so the first part is read with one
token more. -/
theorem followers_append (opened : List Token) (xs ys : List Token) (token : Token) :
    followers opened (xs ++ token :: ys) =
      followers opened (xs ++ [token]) ++ followers (xs.foldl openAfter opened) (token :: ys) := by
  induction xs generalizing opened with
  | nil => rw [List.nil_append, List.nil_append, followers_singleton, List.nil_append,
      List.foldl_nil]
  | cons x xs ih =>
      have next : (xs ++ token :: ys).head? = (xs ++ [token]).head? := by
        cases xs <;> rfl
      rw [List.cons_append, followers, next, ih, ← List.append_assoc]
      rfl

/-- A group has no separator outside its own parentheses, nor has what is in it if it
is enclosed. -/
theorem followers_group {opening closing : Token} (opens : opening.category = .opening)
    (closes : closing.category = .closing) {opened : List Token} (paired : Paired inside)
    (enclosed : followers (opening :: opened) (inside ++ [closing]) = []) (token : Token) :
    followers opened (opening :: (inside ++ [closing]) ++ [token]) = [] := by
  have closed := paired.foldl_openAfter (opening :: opened)
  simp only [List.cons_append, List.append_assoc, followers, openAfter_opening opens,
    List.nil_append]
  rw [followers_append, enclosed, closed]
  simp [followers, opens, closes]

theorem followers_paired (paired : Paired inside) {opened : List Token} (enclosed : opened ≠ [])
    (token : Token) : followers opened (inside ++ [token]) = [] := by
  induction paired generalizing opened token with
  | nil => exact followers_singleton opened token
  | other paired _ _ ih =>
      rw [List.append_assoc, List.singleton_append, followers_append, ih enclosed,
        paired.foldl_openAfter]
      simp [followers, enclosed]
  | @group tokens inside opening closing paired opens inner closes ihTokens ihInside =>
      have within := ihInside (List.cons_ne_nil opening opened) closing
      rw [List.append_assoc, List.cons_append, followers_append, ihTokens enclosed,
        paired.foldl_openAfter]
      exact followers_group opens closes inner within token

end Followers

/-! ## Flaws -/

/-- What stands right after a routine is an open parenthesis. -/
def Called (tokens : List Token) : Prop :=
  tokens.IsChain fun token next => token.category = .routine → next.category = .opening

/-- The check for token order accepts only such tokens. -/
theorem Infix.Ordered.called {tokens : List Token} (ordered : Infix.Ordered tokens) :
    Called tokens := by
  refine ordered.chain.imp fun token next admits isRoutine => ?_
  rw [isRoutine] at admits
  exact Category.eq_opening_of_admits admits

/-- Why a routine at a place does not take the arguments in its parentheses, by the
tokens right after its separators: there are too few arguments, or too many, and then
the first of these is at fault. -/
inductive Miscount (r : Routine) (place : Span) (marks : List Token) : Fault → Prop where
  | few : 1 + marks.length < r.arity →
    Miscount r place marks (.missingArguments r.name r.arity (1 + marks.length) place)
  | many {first : Token} : r.arity < 1 + marks.length → marks[r.arity - 1]? = some first →
    Miscount r place marks (.constantsExcess first.span)

/-- Why a token cannot stand after the ones before it: no parenthesis is open that it
could close or divide, or it closes a call with a wrong number of arguments. -/
inductive Flaw (before : List Token) (token : Token) : Fault → Prop where
  | stray : token.category = .closing ∨ token.category = .separator → Paired before →
    Flaw before token (.parenthesisMismatch token.span)
  | miscount {outer inside : List Token} {opening : Token} {r : Routine} {place : Span}
    {fault : Fault} : token.category = .closing →
    before = outer ++ ⟨.routine r, place⟩ :: opening :: inside → opening.category = .opening →
    Paired inside → Miscount r place (followers [] (inside ++ [token])) fault →
    Flaw before token fault

/-- No token is a flaw after the ones before it. -/
def Flawless (tokens : List Token) : Prop :=
  ∀ before token after, tokens = before ++ token :: after → ∀ fault, ¬ Flaw before token fault

section Flaws

variable {before : List Token} {token : Token} {fault fault' : Fault}

theorem Miscount.unique {r : Routine} {place : Span} {marks : List Token}
    (left : Miscount r place marks fault) (right : Miscount r place marks fault') :
    fault = fault' := by
  cases left with
  | few few =>
      cases right with
      | few _ => rfl
      | many excess _ => omega
  | many excess first =>
      cases right with
      | few few => omega
      | many _ first' =>
          cases first.symm.trans first'
          rfl

theorem Flaw.category (flaw : Flaw before token fault) :
    token.category = .closing ∨ token.category = .separator := by
  cases flaw with
  | stray ends _ => exact ends
  | miscount closes => exact .inl closes

/-- Where a parenthesis is open, a flaw miscounts the arguments of a call. -/
theorem Flaw.within {outer inside : List Token} {opening : Token}
    (flaw : Flaw (outer ++ opening :: inside) token fault) (opens : opening.category = .opening)
    (paired : Paired inside) :
    token.category = .closing ∧ ∃ front r place, outer = front ++ [⟨.routine r, place⟩] ∧
      Miscount r place (followers [] (inside ++ [token])) fault := by
  cases flaw with
  | stray _ whole => exact absurd whole (not_paired_open opens paired)
  | @miscount front _ _ r place _ closes same opens' paired' miscount =>
      obtain ⟨rfl, rfl, rfl⟩ :=
        lastOpen_unique opens paired opens' paired' (same.trans (List.append_cons ..))
      exact ⟨closes, front, r, place, rfl, miscount⟩

theorem Flaw.unique (left : Flaw before token fault) (right : Flaw before token fault') :
    fault = fault' := by
  cases left with
  | stray _ paired =>
      cases right with
      | stray => rfl
      | miscount _ same opens paired' =>
          rw [List.append_cons] at same
          rw [same] at paired
          exact absurd paired (not_paired_open opens paired')
  | miscount _ same opens paired miscount =>
      rw [List.append_cons] at same
      subst same
      obtain ⟨-, _, _, _, ends, miscount'⟩ := right.within opens paired
      obtain ⟨-, last⟩ := List.append_inj' ends rfl
      cases last
      exact miscount.unique miscount'

theorem flawless_nil : Flawless [] := by
  intro before token after same
  simp at same

theorem Flawless.concat (flawless : Flawless before) (good : ∀ fault, ¬ Flaw before token fault) :
    Flawless (before ++ [token]) := by
  intro front last back same fault flaw
  rcases List.eq_nil_or_concat back with rfl | ⟨back, final, rfl⟩
  · obtain ⟨rfl, ends⟩ := List.append_inj' same rfl
    cases ends
    exact good fault flaw
  · rw [List.concat_eq_append, ← List.cons_append, ← List.append_assoc] at same
    obtain ⟨rfl, -⟩ := List.append_inj' same rfl
    exact flawless front last back rfl fault flaw

/-- There is only one first flaw. -/
theorem firstFlaw_unique {front back after : List Token} {token' : Token}
    (flawless : Flawless before) (flaw : Flaw before token fault) (flawless' : Flawless front)
    (flaw' : Flaw front token' fault') (same : before ++ token :: after = front ++ token' :: back) :
    fault = fault' := by
  rcases places_cases same with ⟨rfl, rfl, -⟩ | ⟨between, rfl, -⟩ | ⟨between, rfl, -⟩
  · exact flaw.unique flaw'
  · exact absurd flaw (flawless' before token between rfl fault)
  · exact absurd flaw' (flawless front token' between rfl fault')

end Flaws

/-! ## What the groups count -/

namespace Conversion

/-- A call has counted its arguments, by the tokens right after its separators. -/
structure Counts (call : OpenCall) (marks : List Token) : Prop where
  arguments : call.arguments = 1 + marks.length
  excess : call.excess = marks[call.routine.arity - 1]?.map Token.span

theorem Counts.nextArgument {call : OpenCall} {marks : List Token} (counts : Counts call marks)
    (first : Token) : Counts (call.nextArgument first.span) (marks ++ [first]) where
  arguments := by
    rw [List.length_append, List.length_singleton, ← Nat.add_assoc, ← counts.arguments]
    rfl
  excess := by
    show (if call.routine.arity < call.arguments + 1 ∧ call.excess = none then some first.span
      else call.excess) = (marks ++ [first])[call.routine.arity - 1]?.map Token.span
    rw [counts.arguments, counts.excess]
    by_cases already : call.routine.arity - 1 < marks.length
    · rw [List.getElem?_append_left already, List.getElem?_eq_getElem already]
      simp
    · have beyond : marks.length ≤ call.routine.arity - 1 := Nat.not_lt.mp already
      rw [List.getElem?_append_right beyond, List.getElem?_eq_none beyond]
      by_cases now : call.routine.arity < 1 + marks.length + 1
      · have zero : call.routine.arity - 1 - marks.length = 0 := by omega
        simp [now, zero]
      · have later : [first].length ≤ call.routine.arity - 1 - marks.length := by
          rw [List.length_singleton]
          omega
        rw [List.getElem?_eq_none later]
        simp [now]

theorem Counts.fault?_eq_some_iff {call : OpenCall} {marks : List Token}
    (counts : Counts call marks) {fault : Fault} :
    call.fault? = some fault ↔ Miscount call.routine call.span marks fault := by
  rw [OpenCall.fault?, counts.arguments, counts.excess]
  by_cases few : 1 + marks.length < call.routine.arity
  · rw [if_pos few]
    constructor
    · rintro ⟨⟩
      exact .few few
    · rintro miscount
      exact congrArg some (Miscount.unique (.few few) miscount)
  · rw [if_neg few]
    constructor
    · intro excess
      obtain ⟨span, first, rfl⟩ := Option.map_eq_some_iff.mp excess
      obtain ⟨first, isFirst, rfl⟩ := Option.map_eq_some_iff.mp first
      obtain ⟨inside, -⟩ := List.getElem?_eq_some_iff.mp isFirst
      exact .many (by omega) isFirst
    · rintro (few' | ⟨-, isFirst⟩)
      · exact absurd few' few
      · rw [isFirst]
        rfl

/-- A group fits the tokens before its parenthesis and those inside so far: it is a
call if a routine stands before the parenthesis, and then counts its arguments. -/
def Fits (outer inside : List Token) (next : Option Token) : Group → Prop
  | none => groupAbove outer.getLast?.toList = none
  | some call => (∃ front, outer = front ++ [⟨.routine call.routine, call.span⟩]) ∧
    ∀ token, next = some token → Counts call (followers [] (inside ++ [token]))

/-- The groups are those of the parentheses without a partner in the tokens read so
far, from the last to the first. -/
inductive Nested : List Token → Option Token → List Group → Prop where
  | ground {tokens : List Token} {next : Option Token} : Paired tokens → Nested tokens next []
  | within {outer inside : List Token} {opening : Token} {next : Option Token} {group : Group}
    {groups : List Group} : Nested outer (some opening) groups → opening.category = .opening →
    Paired inside → Fits outer inside next group →
    Nested (outer ++ opening :: inside) next (group :: groups)

/-- Paired tokens with no separator of the innermost group change no group. -/
theorem Nested.extend {before rest : List Token} {token : Token} {groups : List Group}
    (nested : Nested before (some token) groups)
    (pairs : ∀ tokens, Paired tokens → Paired (tokens ++ token :: rest))
    (quiet : ∀ next, followers [] (token :: rest ++ [next]) = []) (next : Option Token) :
    Nested (before ++ token :: rest) next groups := by
  cases nested with
  | ground paired => exact .ground (pairs _ paired)
  | @within outer inside opening _ group groups nested opens paired fits =>
      rw [List.append_assoc, List.cons_append]
      refine .within nested opens (pairs _ paired) ?_
      cases group with
      | none => exact fits
      | some call =>
          obtain ⟨called, counts⟩ := fits
          refine ⟨called, fun last _ => ?_⟩
          -- The count that looked ahead to the first of the tokens is still right.
          rw [List.append_assoc, List.cons_append, followers_append, paired.foldl_openAfter,
            ← List.cons_append, quiet, List.append_nil]
          exact counts token rfl

/-- The group of a parenthesis that was only just read. -/
theorem fits_groupAbove (outer : List Token) (next : Option Token) :
    Fits outer [] next (groupAbove outer.getLast?.toList) := by
  cases last : outer.getLast? with
  | none =>
      show groupAbove outer.getLast?.toList = none
      rw [last]
      rfl
  | some t =>
      obtain ⟨front, rfl⟩ := List.getLast?_eq_some_iff.mp last
      obtain ⟨meaning, span⟩ := t
      cases meaning with
      | routine r =>
          refine ⟨⟨front, rfl⟩, fun token _ => ?_⟩
          rw [List.nil_append, followers_singleton]
          exact ⟨rfl, rfl⟩
      | _ =>
          show groupAbove (front ++ [_]).getLast?.toList = none
          rw [last]
          rfl

/-- A separator in a group begins another argument, with the token right after it. -/
theorem Fits.nextArgument {outer inside : List Token} {group : Group} {token : Token}
    (fits : Fits outer inside (some token) group) (paired : Paired inside)
    (divides : token.category = .separator) (next : Option Token) :
    Fits outer (inside ++ [token]) next
      (group.map (·.nextArgument ((next.map Token.span).getD token.span))) := by
  cases group with
  | none => exact fits
  | some call =>
      obtain ⟨called, counts⟩ := fits
      refine ⟨called, ?_⟩
      rintro first rfl
      have marks : followers [] (inside ++ [token] ++ [first]) =
          followers [] (inside ++ [token]) ++ [first] := by
        rw [List.append_assoc, List.singleton_append, followers_append, paired.foldl_openAfter]
        simp [followers, divides]
      rw [marks]
      exact (counts token rfl).nextArgument first

/-! ## One token -/

/-- A token is a flaw, with which the groups stop, or it is none, and the groups after
it are those of the tokens up to it. -/
def Classified (before : List Token) (groups : List Group) (token : Token)
    (next : Option Token) : Prop :=
  (∃ fault, Flaw before token fault ∧
    Nesting.step groups before.getLast? token next = .error fault) ∨
  (∀ fault, ¬ Flaw before token fault) ∧ ∃ groups', Nested (before ++ [token]) next groups' ∧
    Nesting.step groups before.getLast? token next = .ok groups'

section Step

variable {before : List Token} {groups : List Group} {token : Token}

theorem classified_material (nested : Nested before (some token) groups)
    (material : token.category.isGrouping = false) (next : Option Token) :
    Classified before groups token next := by
  right
  refine ⟨fun fault flaw => ?_, groups, nested.extend (fun tokens paired => ?_) (fun u => ?_) next,
    ?_⟩
  · rcases flaw.category with closes | divides
    · simp [closes, Category.isGrouping] at material
    · simp [divides, Category.isGrouping] at material
  · refine paired.other ?_ ?_
    · rintro opens
      simp [opens, Category.isGrouping] at material
    · rintro closes
      simp [closes, Category.isGrouping] at material
  · have notSeparator : token.category ≠ .separator := by
      rintro divides
      simp [divides, Category.isGrouping] at material
    simp [followers, notSeparator]
  · obtain ⟨meaning, span⟩ := token
    cases meaning <;> first | rfl | cases material

theorem classified_opening {span : Span} (nested : Nested before (some ⟨.opening, span⟩) groups)
    (next : Option Token) : Classified before groups ⟨.opening, span⟩ next := by
  right
  refine ⟨fun fault flaw => ?_, _, .within nested rfl .nil (fits_groupAbove before next), rfl⟩
  rcases flaw.category with closes | divides
  · cases closes
  · cases divides

theorem classified_separator {span : Span}
    (nested : Nested before (some ⟨.separator, span⟩) groups) (next : Option Token) :
    Classified before groups ⟨.separator, span⟩ next := by
  cases nested with
  | ground paired => exact .inl ⟨_, .stray (.inr rfl) paired, rfl⟩
  | @within outer inside opening _ group groups nested opens paired fits =>
      right
      refine ⟨fun fault flaw => ?_, _, ?_, rfl⟩
      · cases (flaw.within opens paired).1
      · rw [List.append_assoc, List.cons_append]
        exact .within nested opens (paired.other (by simp) (by simp))
          (fits.nextArgument paired rfl next)

theorem classified_closing {span : Span} (nested : Nested before (some ⟨.closing, span⟩) groups)
    (next : Option Token) : Classified before groups ⟨.closing, span⟩ next := by
  cases nested with
  | ground paired => exact .inl ⟨_, .stray (.inl rfl) paired, rfl⟩
  | @within outer inside opening _ group groups nested opens paired fits =>
      -- With its group closed, the parenthesis is nothing new to the groups around it.
      have closed : Nested (outer ++ opening :: inside ++ [⟨.closing, span⟩]) next groups := by
        rw [List.append_assoc, List.cons_append]
        exact nested.extend (fun _ before => before.group opens paired rfl)
          (followers_group opens rfl paired (followers_paired paired (List.cons_ne_nil _ _) _)) next
      cases group with
      | none =>
          right
          refine ⟨fun fault flaw => ?_, groups, closed, rfl⟩
          obtain ⟨-, front, r, place, rfl, -⟩ := flaw.within opens paired
          simp [Fits, groupAbove] at fits
      | some call =>
          obtain ⟨⟨front, rfl⟩, counts⟩ := fits
          have counts := counts _ rfl
          cases fault : call.fault? with
          | some fault' =>
              left
              have miscount := counts.fault?_eq_some_iff.mp fault
              refine ⟨fault', .miscount rfl (List.append_cons ..).symm opens paired miscount, ?_⟩
              simp [Nesting.step, fault]
          | none =>
              right
              refine ⟨fun fault' flaw => ?_, groups, closed, by simp [Nesting.step, fault]⟩
              obtain ⟨-, front', r, place, ends, miscount⟩ := flaw.within opens paired
              obtain ⟨-, last⟩ := List.append_inj' ends rfl
              cases last
              rw [counts.fault?_eq_some_iff.mpr miscount] at fault
              cases fault

/-- Every token is classified, by the groups of the tokens before it. -/
theorem classified_step (nested : Nested before (some token) groups) (next : Option Token) :
    Classified before groups token next := by
  obtain ⟨meaning, span⟩ := token
  cases meaning with
  | opening => exact classified_opening nested next
  | separator => exact classified_separator nested next
  | closing => exact classified_closing nested next
  | _ => exact classified_material nested rfl next

end Step

/-! ## The parentheses that wait -/

/-- The open parentheses among the tokens that wait. -/
def openings (waiting : List Token) : List Token := waiting.filter (·.category = .opening)

theorem openings_append {above : List Token} (closed : ∀ t ∈ above, t.category ≠ .opening)
    (rest : List Token) : openings (above ++ rest) = openings rest := by
  have nothing : above.filter (·.category = .opening) = [] := by
    simpa [List.filter_eq_nil_iff] using closed
  rw [openings, List.filter_append, nothing, List.nil_append]
  rfl

theorem openings_cons {opening : Token} (opens : opening.category = .opening)
    (rest : List Token) : openings (opening :: rest) = opening :: openings rest :=
  List.filter_cons_of_pos (by simpa using opens)

theorem openings_cons_other {token : Token} (other : token.category ≠ .opening)
    (rest : List Token) : openings (token :: rest) = openings rest :=
  List.filter_cons_of_neg (by simpa using other)

/-- They change as the parentheses without a partner do. -/
theorem openings_step {c d : Conversion} {token : Token} {next : Option Token}
    (aligned : Aligned c.groups c.waiting) (stepped : c.step token next = .ok d) :
    openings d.waiting = openAfter (openings c.waiting) token := by
  obtain ⟨meaning, span⟩ := token
  cases meaning with
  | constant value => cases stepped; rfl
  | slot index => cases stepped; rfl
  | routine r => cases stepped; exact openings_cons_other (by simp) c.waiting
  | operator o =>
      simp only [step, Except.ok.injEq] at stepped
      subst stepped
      have rest := openings_append (aheadOf_closed o c.waiting) (aheadOf o c.waiting).2
      rw [aheadOf_eq] at rest
      exact (openings_cons_other (by simp) _).trans rest.symm
  | opening => cases stepped; exact openings_cons rfl c.waiting
  | separator =>
      obtain ⟨above, below, opening, group, outer, whole, closed, -, -, -, -, rfl⟩ :=
        separate_cases aligned stepped
      rw [← whole, openings_append closed]
      rfl
  | closing =>
      obtain ⟨above, below, opening, outer, opens, closed, -,
        ⟨whole, -, -, rfl⟩ | ⟨call, whole, -, -, rfl⟩⟩ := close_cases aligned stepped
      · rw [← whole, openings_append closed, openings_cons opens]
        rfl
      · rw [← whole, openings_append closed, openings_cons opens,
          openings_cons_other (by simp)]
        rfl

/-! ## A run -/

/-- What a conversion keeps of the tokens read so far. -/
structure Tracks (c : Conversion) (before : List Token) (next : Option Token) : Prop where
  aligned : Aligned c.groups c.waiting
  seated : Seated before.getLast? c.waiting
  openings : openings c.waiting = before.foldl openAfter []
  nested : Nested before next c.groups

theorem tracks_start (next : Option Token) : Tracks start [] next :=
  ⟨.nil, ⟨List.isChain_nil, rfl⟩, rfl, .ground .nil⟩

theorem tracks_step {c : Conversion} {before : List Token} {token : Token}
    (tracks : Tracks c before (some token))
    (called : ∀ t, before.getLast? = some t → t.category = .routine → token.category = .opening)
    (next : Option Token) :
    (∃ fault, Flaw before token fault ∧ c.step token next = .error fault) ∨
      (∀ fault, ¬ Flaw before token fault) ∧ ∃ d, Tracks d (before ++ [token]) next ∧
        c.step token next = .ok d := by
  obtain ⟨aligned, seated, waiting, nested⟩ := tracks
  -- The step fails exactly where the groups alone do, and with the same fault.
  have alone := Nesting.groups_step aligned seated token next
  rcases classified_step nested next with ⟨fault, flaw, stops⟩ | ⟨good, groups, nested', goes⟩
  · left
    rw [stops] at alone
    cases stepped : c.step token next with
    | ok d => simp [stepped, Except.map] at alone
    | error fault' =>
        simp only [stepped, Except.map, Except.error.injEq] at alone
        exact ⟨fault, flaw, congrArg Except.error alone⟩
  · right
    rw [goes] at alone
    cases stepped : c.step token next with
    | error fault' => simp [stepped, Except.map] at alone
    | ok d =>
        simp only [stepped, Except.map, Except.ok.injEq] at alone
        subst alone
        refine ⟨good, d, ⟨aligned_step aligned stepped, ?_, ?_, nested'⟩, rfl⟩
        · rw [List.getLast?_concat]
          exact seated_step aligned seated called stepped
        · rw [openings_step aligned stepped, waiting, List.foldl_append]
          rfl

/-- A run stops at the first flaw with its fault, and if there is none, it reads all
tokens. -/
theorem run_classified {c : Conversion} {before rest : List Token}
    (called : Called (before ++ rest)) (flawless : Flawless before)
    (tracks : Tracks c before rest.head?) :
    (∃ front token back fault, before ++ rest = front ++ token :: back ∧ Flawless front ∧
      Flaw front token fault ∧ c.run rest = .error fault) ∨
      Flawless (before ++ rest) ∧ ∃ d, Tracks d (before ++ rest) none ∧ c.run rest = .ok d := by
  induction rest generalizing c before with
  | nil =>
      rw [List.append_nil]
      exact .inr ⟨flawless, c, tracks, rfl⟩
  | cons token rest ih =>
      have follows : ∀ t, before.getLast? = some t → t.category = .routine →
          token.category = .opening :=
        fun t isLast => (List.isChain_append.mp called).2.2 t isLast token rfl
      rcases tracks_step tracks follows rest.head? with
        ⟨fault, flaw, stops⟩ | ⟨good, d, tracks', stepped⟩
      · refine .inl ⟨before, token, rest, fault, rfl, flawless, flaw, ?_⟩
        rw [run, stops]
      · rw [List.append_cons] at called ⊢
        have later := ih called (flawless.concat good) tracks'
        rwa [run, stepped]

theorem finish_of_paired {c : Conversion} {tokens : List Token} (paired : Paired tokens)
    (openings : openings c.waiting = tokens.foldl openAfter []) :
    c.finish = .ok (c.emitted.reverse ++ c.waiting) := by
  rw [paired.foldl_openAfter] at openings
  refine finish_eq_ok_iff.mpr ⟨?_, rfl⟩
  simpa [Conversion.openings, List.filter_eq_nil_iff] using openings

theorem finish_of_open {c : Conversion} {outer inside : List Token} {opening : Token}
    (opens : opening.category = .opening) (paired : Paired inside)
    (openings : openings c.waiting = (outer ++ opening :: inside).foldl openAfter []) :
    c.finish = .error (.parenthesisMismatch opening.span) := by
  rw [foldl_openAfter_open opens paired] at openings
  have found : c.waiting.find? (·.category = .opening) = some opening := by
    rw [← List.head?_filter]
    exact congrArg List.head? openings
  rw [finish, found]

end Conversion

/-- What a conversion fails with: the fault of the first flaw or, where no token is a
flaw, the last opening parenthesis that has no partner. -/
inductive Unconvertible (tokens : List Token) : Fault → Prop where
  | flawed {before after : List Token} {token : Token} {fault : Fault} :
    tokens = before ++ token :: after → Flawless before → Flaw before token fault →
    Unconvertible tokens fault
  | unclosed {outer inside : List Token} {opening : Token} : Flawless tokens →
    tokens = outer ++ opening :: inside → opening.category = .opening → Paired inside →
    Unconvertible tokens (.parenthesisMismatch opening.span)

section Conversion

variable {tokens : List Token} {fault fault' : Fault}

theorem Unconvertible.unique (left : Unconvertible tokens fault)
    (right : Unconvertible tokens fault') : fault = fault' := by
  cases left with
  | flawed same flawless flaw =>
      cases right with
      | flawed same' flawless' flaw' =>
          exact firstFlaw_unique flawless flaw flawless' flaw' (same.symm.trans same')
      | unclosed flawless' => exact absurd flaw (flawless' _ _ _ same _)
  | unclosed flawless same opens paired =>
      cases right with
      | flawed same' _ flaw' => exact absurd flaw' (flawless _ _ _ same' _)
      | unclosed _ same' opens' paired' =>
          obtain ⟨-, rfl, -⟩ := lastOpen_unique opens paired opens' paired' (same.symm.trans same')
          rfl

theorem Unconvertible.not_paired (fails : Unconvertible tokens fault) (flawless : Flawless tokens) :
    ¬ Paired tokens := by
  cases fails with
  | flawed same _ flaw => exact absurd flaw (flawless _ _ _ same _)
  | unclosed _ same opens paired =>
      rw [same]
      exact not_paired_open opens paired

theorem toPostfix_cases (called : Called tokens) :
    (∃ fault, Unconvertible tokens fault ∧ toPostfix tokens = .error fault) ∨
      Flawless tokens ∧ Paired tokens ∧ ∃ out, toPostfix tokens = .ok out := by
  rcases Conversion.run_classified (show Called ([] ++ tokens) from called) flawless_nil
      (Conversion.tracks_start tokens.head?) with
    ⟨front, token, back, fault, same, flawless, flaw, stops⟩ | ⟨flawless, c, tracks, ran⟩
  · refine .inl ⟨fault, .flawed same flawless flaw, ?_⟩
    rw [toPostfix, stops]
  · obtain ⟨-, -, waiting, nested⟩ := tracks
    rw [List.nil_append] at flawless waiting nested
    generalize c.groups = groups at nested
    cases nested with
    | ground paired =>
        refine .inr ⟨flawless, paired, c.emitted.reverse ++ c.waiting, ?_⟩
        rw [toPostfix, ran]
        exact Conversion.finish_of_paired paired waiting
    | within nested opens paired fits =>
        refine .inl ⟨_, .unclosed flawless rfl opens paired, ?_⟩
        rw [toPostfix, ran]
        exact Conversion.finish_of_open opens paired waiting

end Conversion

/-- The conversion fails with the fault of the first flaw, or if no token is a flaw,
at the last opening parenthesis without a partner. It succeeds if there is neither. -/
theorem conversion_faults_classified {tokens : List Token} (called : Called tokens)
    (fault : Fault) :
    (toPostfix tokens = .error fault ↔ Unconvertible tokens fault) ∧
      ((∃ out, toPostfix tokens = .ok out) ↔ Flawless tokens ∧ Paired tokens) := by
  rcases toPostfix_cases called with ⟨fault', fails, stops⟩ | ⟨flawless, paired, out, converted⟩
  · rw [stops]
    refine ⟨⟨?_, ?_⟩, ?_, ?_⟩
    · rintro ⟨⟩
      exact fails
    · intro fails'
      exact congrArg Except.error (fails.unique fails')
    · rintro ⟨out, ⟨⟩⟩
    · rintro ⟨flawless, paired⟩
      exact absurd paired (fails.not_paired flawless)
  · rw [converted]
    refine ⟨⟨?_, ?_⟩, fun _ => ⟨flawless, paired⟩, fun _ => ⟨out, rfl⟩⟩
    · rintro ⟨⟩
    · intro fails
      exact absurd paired (fails.not_paired flawless)

/-- In `max(1, (2, 3), 4)` the separator in the inner parentheses is not counted, so
the routine is given three arguments, and the third one is too much. -/
theorem conversion_faults_classified_max :
    let largest : Routine := ⟨"max", 2, fun values => values.headD 0.0, false⟩
    let tokens : List Token := [⟨.routine largest, ⟨0, 3⟩⟩, ⟨.opening, ⟨3, 4⟩⟩,
      ⟨.constant 1.0, ⟨4, 5⟩⟩, ⟨.separator, ⟨5, 6⟩⟩, ⟨.opening, ⟨7, 8⟩⟩, ⟨.constant 2.0, ⟨8, 9⟩⟩,
      ⟨.separator, ⟨9, 10⟩⟩, ⟨.constant 3.0, ⟨11, 12⟩⟩, ⟨.closing, ⟨12, 13⟩⟩,
      ⟨.separator, ⟨13, 14⟩⟩, ⟨.constant 4.0, ⟨15, 16⟩⟩, ⟨.closing, ⟨16, 17⟩⟩]
    Called tokens ∧ Unconvertible tokens (.constantsExcess ⟨15, 16⟩) ∧
      ¬ (Flawless tokens ∧ Paired tokens) := by
  intro largest tokens
  have called : Called tokens := by
    simp [Called, tokens]
  have stops : toPostfix tokens = .error (.constantsExcess ⟨15, 16⟩) := rfl
  obtain ⟨fails, converts⟩ := conversion_faults_classified called (.constantsExcess ⟨15, 16⟩)
  refine ⟨called, fails.mp stops, fun good => ?_⟩
  obtain ⟨out, converted⟩ := converts.mpr good
  cases stops.symm.trans converted

end Formula
