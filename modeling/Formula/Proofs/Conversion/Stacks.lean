/-
# Formula.Proofs.Conversion.Stacks — the stack and the groups in step

A conversion keeps two stacks, the waiting tokens and the open groups, and changes them in
different places. After any tokens they fit together (`stacks_in_step`): there is a group for
every open parenthesis that waits, and the group knows the routine right below it
(`calleesBelow`), how many separators were read while it was innermost (`metAfter`), and
whether these are too many. So a parenthesis that closes a call emits the routine whose
arguments were counted.

What waits is also in order, if every routine is called: between two open parentheses each
operator is one that those below it let stand (`Ranked`).
-/
import Mathlib.Data.List.Forall2
import Formula.Proofs.Conversion.Flaws
import Formula.Proofs.Conversion.Reordering
import Formula.Proofs.Conversion.Selection

namespace Formula

set_option autoImplicit false

namespace Conversion

variable {c d : Conversion} {token : Token} {next : Option Token}

/-! ## The first tokens of a list -/

/-- Handle the first part of some tokens. The rest is not handled, but the last token of the
first part may look at it. -/
def through (c : Conversion) : List Token → List Token → Except Fault Conversion
  | [], _ => .ok c
  | token :: before, rest =>
    match c.step token (before ++ rest).head? with
    | .error fault => .error fault
    | .ok d => d.through before rest

theorem run_append (c : Conversion) (before rest : List Token) :
    c.run (before ++ rest) = (c.through before rest).bind (·.run rest) := by
  induction before generalizing c with
  | nil => rfl
  | cons token before ih =>
      rw [List.cons_append, run, through]
      cases c.step token (before ++ rest).head? with
      | error fault => rfl
      | ok d => exact ih d

/-- What every step keeps holds after the first tokens. It may speak of the tokens handled so
far. -/
theorem through_induct {motive : List Token → Conversion → Prop}
    (kept : ∀ {done : List Token} {token : Token} {next : Option Token} {c d : Conversion},
      motive done c → c.step token next = .ok d → motive (done ++ [token]) d)
    {done before rest : List Token} {c d : Conversion} (held : motive done c)
    (reached : c.through before rest = .ok d) : motive (done ++ before) d := by
  induction before generalizing c done with
  | nil =>
      cases reached
      rwa [List.append_nil]
  | cons token before ih =>
      rw [through] at reached
      split at reached
      · cases reached
      · rename_i middle stepped
        rw [List.append_cons]
        exact ih (kept held stepped) reached

/-! ## A group for every open parenthesis -/

/-- The routine that a group calls, as the token that was read. -/
def callee? (group : Group) : Option Token :=
  group.map fun call => ⟨.routine call.routine, call.span⟩

/-- For every open parenthesis that waits, top first, the routine right below it. -/
def calleesBelow : List Token → List (Option Token)
  | [] => []
  | top :: below =>
    if top.category = .opening then
      below.head?.filter (·.category = .routine) :: calleesBelow below
    else calleesBelow below

theorem Opens.callee? {group : Group} {below : List Token} (opens : Opens group below) :
    callee? group = below.head?.filter (·.category = .routine) := by
  cases group with
  | none =>
      have other := groupAbove_eq_none_iff.mp opens
      cases below with
      | nil => rfl
      | cons top below => simp [Conversion.callee?, Option.filter, other top rfl]
  | some call =>
      obtain ⟨rest, rfl⟩ := opens
      rfl

theorem Aligned.callees {groups : List Group} {waiting : List Token}
    (aligned : Aligned groups waiting) : groups.map callee? = calleesBelow waiting := by
  induction aligned with
  | nil => rfl
  | other closed _ ih => rw [calleesBelow, if_neg closed, ih]
  | opening opens fits _ ih => rw [calleesBelow, if_pos opens, List.map_cons, ih, fits.callee?]

/-! ## Separators -/

/-- How many separators were read in each open group while it was the innermost one, newest
group first, after one more token. -/
def metAfter (met : List Nat) (token : Token) : List Nat :=
  match token.category, met with
  | .opening, _ => 0 :: met
  | .closing, _ => met.tail
  | .separator, count :: outer => (count + 1) :: outer
  | _, _ => met

/-- A call has counted one argument more than there were separators, and has marked one as
too many if there are more than it takes. The first argument it never marks; a routine takes
at least one. -/
def Tallied (group : Group) (separators : Nat) : Prop :=
  ∀ call, group = some call → call.arguments = 1 + separators ∧
    (call.excess.isSome = true ↔ max 1 call.routine.arity < call.arguments)

/-- For a routine that takes an argument this says that the count exceeds the arity. -/
theorem Tallied.excess_iff {group : Group} {separators : Nat} (tallied : Tallied group separators) :
    ∀ call, group = some call → 0 < call.routine.arity →
      (call.excess.isSome = true ↔ call.routine.arity < call.arguments) := by
  intro call found positive
  rw [(tallied call found).2]
  omega

theorem tallied_groupAbove (waiting : List Token) : Tallied (groupAbove waiting) 0 := by
  intro call above
  unfold groupAbove at above
  split at above
  · cases above
    simp
  · cases above

theorem Tallied.nextArgument {group : Group} {separators : Nat} (tallied : Tallied group separators)
    (place : Span) : Tallied (group.map (·.nextArgument place)) (separators + 1) := by
  intro call found
  obtain ⟨call, rfl, rfl⟩ := Option.map_eq_some_iff.mp found
  obtain ⟨arguments, excess⟩ := tallied call rfl
  refine ⟨by simp only [OpenCall.nextArgument, arguments]; omega, ?_⟩
  simp only [OpenCall.nextArgument]
  split
  · rename_i first
    simp only [Option.isSome_some, true_iff]
    omega
  · rename_i already
    rw [excess]
    by_cases none_ : call.excess = none
    · have unmarked : ¬ max 1 call.routine.arity < call.arguments := by simp [← excess, none_]
      have few : ¬ call.routine.arity < call.arguments + 1 := fun many => already ⟨many, none_⟩
      omega
    · have marked : max 1 call.routine.arity < call.arguments :=
        excess.mp (Option.isSome_iff_ne_none.mpr none_)
      omega

/-- The groups are those of the open parentheses, and have counted the separators. -/
structure InStep (before : List Token) (c : Conversion) : Prop where
  aligned : Aligned c.groups c.waiting
  tallied : List.Forall₂ Tallied c.groups (before.foldl metAfter [])

theorem inStep_start : InStep [] start := ⟨.nil, .nil⟩

/-- Every step keeps the stacks in step. -/
theorem inStep_step {before : List Token} (inStep : InStep before c)
    (stepped : c.step token next = .ok d) : InStep (before ++ [token]) d := by
  obtain ⟨aligned, tallied⟩ := inStep
  refine ⟨aligned_step aligned stepped, ?_⟩
  rw [List.foldl_concat]
  obtain ⟨meaning, span⟩ := token
  cases meaning with
  | constant value => cases stepped; exact tallied
  | slot index => cases stepped; exact tallied
  | routine r => cases stepped; exact tallied
  | operator o =>
      simp only [step, Except.ok.injEq] at stepped
      subst stepped
      exact tallied
  | opening => cases stepped; exact .cons (tallied_groupAbove c.waiting) tallied
  | separator =>
      obtain ⟨above, below, opening, group, outer, -, -, open_, -, -, -, rfl⟩ :=
        separate_cases aligned stepped
      rw [open_] at tallied
      generalize before.foldl metAfter [] = met at tallied ⊢
      cases tallied with
      | cons first rest => exact .cons (first.nextArgument _) rest
  | closing =>
      have outermost : ∃ group, c.groups = group :: d.groups := by
        obtain ⟨above, below, opening, outer, -, -, -,
          ⟨-, open_, -, rfl⟩ | ⟨call, -, open_, -, rfl⟩⟩ := close_cases aligned stepped
        · exact ⟨none, open_⟩
        · exact ⟨some call, open_⟩
      obtain ⟨group, open_⟩ := outermost
      rw [open_] at tallied
      generalize before.foldl metAfter [] = met at tallied ⊢
      cases tallied with
      | cons _ rest => exact rest

/-! ## The operators that wait -/

/-- The operators among some tokens. -/
def operatorsIn (tokens : List Token) : List Operator :=
  tokens.filterMap fun token =>
    match token.meaning with
    | .operator o => some o
    | _ => none

theorem operatorsIn_cons {t : Token} {o : Operator} (meaning : t.meaning = .operator o)
    (tokens : List Token) : operatorsIn (t :: tokens) = o :: operatorsIn tokens := by
  simp [operatorsIn, meaning]

theorem operatorsIn_cons_other {t : Token} (other : t.category ≠ .operator)
    (tokens : List Token) : operatorsIn (t :: tokens) = operatorsIn tokens := by
  obtain ⟨meaning, span⟩ := t
  cases meaning with
  | operator o => exact absurd rfl other
  | _ => rfl

/-- An operator may wait above another one: it does not bind less tightly, and binds more
tightly if it groups to the left. -/
structure Outranks (upper lower : Operator) : Prop where
  least : lower.precedence ≤ upper.precedence
  strict : upper.isLeftAssociative = true → lower.precedence < upper.precedence

/-- These are the operators that it does not yield to. -/
theorem outranks_iff {upper lower : Operator} :
    Outranks upper lower ↔ yieldsTo upper lower = false := by
  rw [Run.not_yieldsTo_iff]
  constructor
  · rintro ⟨least, strict⟩
    exact ⟨least, fun left => Nat.ne_of_gt (strict left)⟩
  · rintro ⟨least, differs⟩
    exact ⟨least, fun left => Nat.lt_of_le_of_ne least (differs left).symm⟩

theorem Outranks.trans {upper middle lower : Operator} (first : Outranks upper middle)
    (second : Outranks middle lower) : Outranks upper lower :=
  outranks_iff.mpr (Run.not_yieldsTo_trans (outranks_iff.mp first) (outranks_iff.mp second))

/-- Where no open parenthesis stands between them, upper operators outrank lower ones. -/
def Ranked (waiting : List Token) : Prop :=
  ∀ stretch, stretch <:+: waiting → (∀ t ∈ stretch, t.category ≠ .opening) →
    (operatorsIn stretch).Pairwise Outranks

theorem ranked_nil : Ranked [] := by
  intro stretch inside _
  rw [List.infix_nil.mp inside]
  exact .nil

theorem Ranked.of_suffix {waiting below : List Token} (ranked : Ranked waiting)
    (suffix : below <:+ waiting) : Ranked below :=
  fun stretch inside => ranked stretch (inside.trans suffix.isInfix)

/-- A token that is no operator may wait anywhere. -/
theorem Ranked.cons_other {waiting : List Token} (ranked : Ranked waiting)
    (other : token.category ≠ .operator) : Ranked (token :: waiting) := by
  intro stretch inside closed
  rcases List.infix_cons_iff.mp inside with atTop | below
  · rcases List.prefix_cons_iff.mp atTop with rfl | ⟨lower, rfl, first⟩
    · exact .nil
    · rw [operatorsIn_cons_other other]
      exact ranked lower first.isInfix fun t member => closed t (List.mem_cons_of_mem _ member)
  · exact ranked stretch below closed

/-- An operator may wait on top of an operator that it outranks, or of an open
parenthesis. -/
theorem Ranked.cons_operator {waiting : List Token} {o : Operator} {span : Span}
    (ranked : Ranked waiting)
    (top : ∀ t, waiting.head? = some t → t.category = .opening ∨
      ∃ p, t.meaning = .operator p ∧ Outranks o p) :
    Ranked (⟨.operator o, span⟩ :: waiting) := by
  intro stretch inside closed
  rcases List.infix_cons_iff.mp inside with atTop | below
  · rcases List.prefix_cons_iff.mp atTop with rfl | ⟨lower, rfl, first⟩
    · exact .nil
    have closed' : ∀ t ∈ lower, t.category ≠ .opening :=
      fun t member => closed t (List.mem_cons_of_mem _ member)
    have sorted := ranked lower first.isInfix closed'
    rw [operatorsIn_cons rfl]
    refine List.pairwise_cons.mpr ⟨?_, sorted⟩
    cases lower with
    | nil => simp [operatorsIn]
    | cons t lower =>
        obtain ⟨_, rfl, -⟩ := List.cons_prefix_iff.mp first
        rcases top t rfl with opens | ⟨p, meaning, outranks⟩
        · exact absurd opens (closed' t (List.mem_cons_self ..))
        · -- What the top one outranks, the new one does too.
          rw [operatorsIn_cons meaning] at sorted ⊢
          exact List.forall_mem_cons.mpr
            ⟨outranks, fun q member => outranks.trans (List.rel_of_pairwise_cons sorted member)⟩
  · exact ranked stretch below closed

/-- With no routine on top, an operator stops at an operator that it outranks, or at an open
parenthesis. -/
theorem outranks_of_aheadOf (o : Operator) {waiting : List Token}
    (waits : ∀ t ∈ waiting, t.category.Waits) (chain : waiting.IsChain Seats)
    (top : groupAbove waiting = none) :
    ∀ t, (aheadOf o waiting).2.head? = some t → t.category = .opening ∨
      ∃ p, t.meaning = .operator p ∧ Outranks o p := by
  induction waiting with
  | nil => simp [aheadOf]
  | cons first below ih =>
      have here := waits first (List.mem_cons_self ..)
      obtain ⟨meaning, span⟩ := first
      rw [aheadOf]
      cases meaning with
      | operator p =>
          have uncovered : groupAbove below = none := by
            rw [← List.singleton_append] at chain top
            exact groupAbove_of_suffix chain (by simp) top
          have later := ih (fun t member => waits t (List.mem_cons_of_mem _ member))
            (List.isChain_cons.mp chain).2 uncovered
          cases yields : yieldsTo o p with
          | true => simpa [yields] using later
          | false =>
              simp only [yields, Bool.false_eq_true, if_false]
              rintro t ⟨⟩
              exact .inr ⟨p, rfl, outranks_iff.mpr yields⟩
      | routine r => exact absurd rfl (groupAbove_eq_none_iff.mp top _ rfl)
      | opening =>
          rintro t ⟨⟩
          exact .inl rfl
      | constant value => exact absurd rfl here.ne_constant
      | slot index => exact absurd rfl here.ne_constant
      | closing => simp [Category.Waits] at here
      | separator => simp [Category.Waits] at here

/-- What waits after tokens whose routines are called. -/
structure Orderly (before : List Token) (c : Conversion) : Prop where
  selective : Selective c
  seated : Seated before.getLast? c.waiting
  ranked : Ranked c.waiting

theorem orderly_start : Orderly [] start :=
  ⟨selective_start, ⟨List.isChain_nil, rfl⟩, ranked_nil⟩

theorem orderly_step {before : List Token} (orderly : Orderly before c)
    (called : Called (before ++ [token])) (stepped : c.step token next = .ok d) :
    Orderly (before ++ [token]) d := by
  obtain ⟨selective, seated, ranked⟩ := orderly
  have follows : ∀ t, before.getLast? = some t → t.category = .routine →
      token.category = .opening :=
    fun t isLast => (List.isChain_append.mp called).2.2 t isLast token rfl
  refine ⟨(selective_step selective stepped).1, ?_, ?_⟩
  · rw [List.getLast?_concat]
    exact seated_step selective.aligned seated follows stepped
  obtain ⟨meaning, span⟩ := token
  cases meaning with
  | constant value => cases stepped; exact ranked
  | slot index => cases stepped; exact ranked
  | routine r => cases stepped; exact ranked.cons_other (by simp)
  | opening => cases stepped; exact ranked.cons_other (by simp)
  | operator o =>
      have uncovered : groupAbove c.waiting = none := by
        rw [seated.top, groupAbove_eq_none_iff]
        intro t isLast isRoutine
        have opens := follows t (by cases last : before.getLast? <;> simp_all) isRoutine
        cases opens
      have top := outranks_of_aheadOf o selective.waiting seated.chain uncovered
      simp only [step, Except.ok.injEq] at stepped
      subst stepped
      exact (ranked.of_suffix ⟨_, aheadOf_eq o c.waiting⟩).cons_operator top
  | separator =>
      obtain ⟨above, below, opening, group, outer, whole, -, -, -, -, -, rfl⟩ :=
        separate_cases selective.aligned stepped
      exact ranked.of_suffix ⟨above, whole⟩
  | closing =>
      obtain ⟨above, below, opening, outer, -, -, -,
        ⟨whole, -, -, rfl⟩ | ⟨call, whole, -, -, rfl⟩⟩ := close_cases selective.aligned stepped
      · exact ranked.of_suffix ⟨above ++ [opening], by simpa using whole⟩
      · exact ranked.of_suffix
          ⟨above ++ [opening, ⟨.routine call.routine, call.span⟩], by simpa using whole⟩

/-! ## After the first tokens -/

theorem inStep_through {before rest : List Token} (reached : start.through before rest = .ok c) :
    InStep before c :=
  through_induct inStep_step inStep_start reached

theorem orderly_through {before rest : List Token} (called : Called before)
    (reached : start.through before rest = .ok c) : Orderly before c := by
  refine through_induct (motive := fun before c => Called before → Orderly before c)
    (fun orderly stepped called => ?_) (fun _ => orderly_start) reached called
  exact orderly_step (orderly (List.isChain_append.mp called).1) called stepped

/-- With the groups aligned, a closing parenthesis finds its group, and ends the call whose
arguments the group has counted. -/
theorem closing_of_aligned {above below : List Token} {opening : Token}
    (aligned : Aligned c.groups c.waiting) (whole : c.waiting = above ++ opening :: below)
    (closed : ∀ t ∈ above, t.category ≠ .opening) (opens : opening.category = .opening) :
    ∃ group outer, c.groups = group :: outer ∧
      (group = none → ∀ span next,
        c.step ⟨.closing, span⟩ next = .ok ⟨below, outer, above.reverse ++ c.emitted⟩) ∧
      ∀ call, group = some call → ∃ deeper, below = ⟨.routine call.routine, call.span⟩ :: deeper ∧
        ∀ span next, c.step ⟨.closing, span⟩ next =
          match call.fault? with
          | some fault => .error fault
          | none => .ok ⟨deeper, outer,
              ⟨.routine call.routine, call.span⟩ :: (above.reverse ++ c.emitted)⟩ := by
  obtain ⟨waiting, groups, emitted⟩ := c
  subst whole
  have splits : aboveOpening (above ++ opening :: below) = some (above, opening :: below) :=
    aboveOpening_append closed opens
  obtain ⟨group, outer, rfl, -, fits, -⟩ := aligned.split splits
  refine ⟨group, outer, rfl, ?_, ?_⟩
  · rintro rfl span next
    exact step_closing_group span next closed opens
  · rintro call rfl
    obtain ⟨deeper, rfl⟩ := fits
    refine ⟨deeper, rfl, fun span next => ?_⟩
    cases fault : call.fault? with
    | some fault => simp [step, close, splits, fault]
    | none => exact step_closing_call span next closed opens fault

end Conversion

open Conversion in
/-- After any first tokens of a list, of whatever form, that a conversion reads without a
fault: the groups are those of the open parentheses that wait, one for each, and call the
routine right below it if there is one; a call has counted one argument more than separators
were read while its group was innermost, and has marked one of them if these are more than it
takes; and with every routine called, no operator waits on top of one that should have left
before it. So a closing parenthesis with a partner has a group to end, and the token it then
emits for a call is the routine whose arguments were counted. -/
theorem stacks_in_step {before rest : List Token} {c : Conversion}
    (reached : start.through before rest = .ok c) :
    start.run (before ++ rest) = c.run rest ∧
      c.groups.map callee? = calleesBelow c.waiting ∧
      (List.Forall₂ Tallied c.groups (before.foldl metAfter []) ∧
        ∀ call, some call ∈ c.groups → 0 < call.routine.arity →
          (call.excess.isSome = true ↔ call.routine.arity < call.arguments)) ∧
      (Called before → Ranked c.waiting) ∧
      ∀ above opening below, c.waiting = above ++ opening :: below →
        (∀ t ∈ above, t.category ≠ .opening) → opening.category = .opening →
        ∃ group outer, c.groups = group :: outer ∧
          (group = none → ∀ span next,
            c.step ⟨.closing, span⟩ next = .ok ⟨below, outer, above.reverse ++ c.emitted⟩) ∧
          ∀ call, group = some call →
            ∃ deeper, below = ⟨.routine call.routine, call.span⟩ :: deeper ∧
              ∀ span next, c.step ⟨.closing, span⟩ next =
                match call.fault? with
                | some fault => .error fault
                | none => .ok ⟨deeper, outer,
                    ⟨.routine call.routine, call.span⟩ :: (above.reverse ++ c.emitted)⟩ := by
  obtain ⟨aligned, tallied⟩ := inStep_through reached
  have goesOn : start.run (before ++ rest) = c.run rest := by
    rw [run_append, reached]
    rfl
  obtain ⟨marked, -⟩ := (List.forall₂_and_left _ _).mp
    (tallied.imp fun group separators counts => ⟨counts.excess_iff, counts⟩)
  exact ⟨goesOn, aligned.callees, ⟨tallied, fun call member => marked _ member call rfl⟩,
    fun called => (orderly_through called reached).ranked,
    fun above opening below => closing_of_aligned aligned⟩

open Conversion in
/-- In the middle of a call a product waits on a sum, which stands above the parenthesis. The
routine below it has met one separator, and a closing parenthesis puts it out last. -/
theorem stacks_in_step_call :
    let minus : Operator := ⟨"-", 2, .left, fun a b => a - b, false⟩
    let plus : Operator := ⟨"+", 2, .left, fun a b => a + b, false⟩
    let times : Operator := ⟨"*", 3, .left, fun a b => a * b, false⟩
    let larger : Routine := ⟨"larger", 2, fun values => values.headD 0.0, false⟩
    let callee : Token := ⟨.routine larger, ⟨2, 8⟩⟩
    let before : List Token := [⟨.slot 0, ⟨0, 1⟩⟩, ⟨.operator minus, ⟨1, 2⟩⟩, callee,
      ⟨.opening, ⟨8, 9⟩⟩, ⟨.slot 1, ⟨9, 10⟩⟩, ⟨.separator, ⟨10, 11⟩⟩, ⟨.slot 2, ⟨11, 12⟩⟩,
      ⟨.operator plus, ⟨12, 13⟩⟩, ⟨.slot 3, ⟨13, 14⟩⟩, ⟨.operator times, ⟨14, 15⟩⟩,
      ⟨.slot 4, ⟨15, 16⟩⟩]
    ∃ c, start.through before [] = .ok c ∧ c.groups.map callee? = [some callee] ∧
      List.Forall₂ Tallied c.groups [1] ∧ Called before ∧ Ranked c.waiting ∧
      operatorsIn c.waiting = [times, plus, minus] ∧
      ∃ d, c.step ⟨.closing, ⟨16, 17⟩⟩ none = .ok d ∧ d.emitted.head? = some callee ∧
        d.waiting = [⟨.operator minus, ⟨1, 2⟩⟩] := by
  intro minus plus times larger callee before
  let above : List Token := [⟨.operator times, ⟨14, 15⟩⟩, ⟨.operator plus, ⟨12, 13⟩⟩]
  let c : Conversion := ⟨above ++ ⟨.opening, ⟨8, 9⟩⟩ :: callee :: [⟨.operator minus, ⟨1, 2⟩⟩],
    [some ⟨larger, ⟨2, 8⟩, 2, none⟩],
    [⟨.slot 4, ⟨15, 16⟩⟩, ⟨.slot 3, ⟨13, 14⟩⟩, ⟨.slot 2, ⟨11, 12⟩⟩, ⟨.slot 1, ⟨9, 10⟩⟩,
      ⟨.slot 0, ⟨0, 1⟩⟩]⟩
  have reached : start.through before [] = .ok c := rfl
  have called : Called before := by simp [Called, before, callee]
  obtain ⟨-, groups, ⟨tallied, -⟩, ranked, closing⟩ := stacks_in_step reached
  obtain ⟨group, outer, open_, -, ends⟩ := closing above _ _ rfl (by simp [above]) rfl
  obtain ⟨rfl, -⟩ := List.cons.inj open_
  obtain ⟨deeper, same, steps⟩ := ends _ rfl
  obtain ⟨-, rfl⟩ := List.cons.inj same
  exact ⟨c, reached, groups, tallied, called, ranked called, rfl, _, steps ⟨16, 17⟩ none, rfl, rfl⟩

end Formula
