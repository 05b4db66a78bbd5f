/-
# Formula.Proofs.Conversion.Nesting — open groups by themselves

The open groups of a conversion change as if there were no operators and no
output: what a token does to them depends on them, on the token before it and
on the token after it (`Nesting.step`). Two invariants of the stack make this
true (`groups_step`). The groups stand for the open parentheses that wait
(`Aligned`), and a routine waits directly below a parenthesis unless it was only
just read (`Seated`); every step keeps both (`aligned_step`, `seated_step`).
-/
import Formula.Proofs.Conversion.Conservation

namespace Formula

set_option autoImplicit false

/-! ## The groups are the open parentheses -/

namespace Conversion

/-- A group fits what waits below its parenthesis: it is a call exactly when that
is a routine, and then the call of this routine. -/
def Opens : Group → List Token → Prop
  | none, below => groupAbove below = none
  | some call, below => ∃ rest, below = ⟨.routine call.routine, call.span⟩ :: rest

/-- The groups are those of the open parentheses that wait, newest first. -/
inductive Aligned : List Group → List Token → Prop where
  | nil : Aligned [] []
  | other {groups : List Group} {waiting : List Token} {t : Token} :
    t.category ≠ .opening → Aligned groups waiting → Aligned groups (t :: waiting)
  | opening {group : Group} {groups : List Group} {waiting : List Token} {t : Token} :
    t.category = .opening → Opens group waiting → Aligned groups waiting →
    Aligned (group :: groups) (t :: waiting)

theorem groupAbove_eq_none_iff {waiting : List Token} :
    groupAbove waiting = none ↔
      ∀ top, waiting.head? = some top → top.category ≠ .routine := by
  cases waiting with
  | nil => simp [groupAbove]
  | cons top below =>
      obtain ⟨meaning, span⟩ := top
      cases meaning <;> simp [groupAbove]

theorem opens_groupAbove (waiting : List Token) : Opens (groupAbove waiting) waiting := by
  cases above : groupAbove waiting with
  | none => exact above
  | some call =>
      unfold groupAbove at above
      split at above
      · cases above
        exact ⟨_, rfl⟩
      · cases above

/-- A call keeps its routine and its place when it counts an argument. -/
theorem Opens.nextArgument {group : Group} {below : List Token} (opens : Opens group below)
    (place : Span) : Opens (group.map (·.nextArgument place)) below := by
  cases group with
  | none => exact opens
  | some call => exact opens

/-- Waiting tokens above the parenthesis do not matter. -/
theorem Aligned.drop {groups : List Group} {above rest : List Token}
    (aligned : Aligned groups (above ++ rest)) (closed : ∀ t ∈ above, t.category ≠ .opening) :
    Aligned groups rest := by
  induction above with
  | nil => exact aligned
  | cons t above ih =>
      cases aligned with
      | other _ inner => exact ih inner fun u member => closed u (List.mem_cons_of_mem _ member)
      | opening opens => exact absurd opens (closed t (List.mem_cons_self ..))

/-- With the stack split at the innermost parenthesis, the innermost group is
that parenthesis. -/
theorem Aligned.split {groups : List Group} {waiting above below : List Token} {opening : Token}
    (aligned : Aligned groups waiting)
    (splits : aboveOpening waiting = some (above, opening :: below)) :
    ∃ group outer, groups = group :: outer ∧ opening.category = .opening ∧ Opens group below ∧
      Aligned outer below := by
  obtain ⟨rfl, closed, _, _, same, opens⟩ := aboveOpening_eq splits
  cases same
  cases aligned.drop closed with
  | other closed' => exact absurd opens closed'
  | opening _ fits inner => exact ⟨_, _, rfl, opens, fits, inner⟩

theorem Aligned.eq_nil {groups : List Group} {waiting : List Token}
    (aligned : Aligned groups waiting) (none_ : ∀ t ∈ waiting, t.category ≠ .opening) :
    groups = [] := by
  induction aligned with
  | nil => rfl
  | other _ _ ih => exact ih fun t member => none_ t (List.mem_cons_of_mem _ member)
  | opening opens => exact absurd opens (none_ _ (List.mem_cons_self ..))

/-- A separator emits what waits above the innermost parenthesis, and counts an
argument if the group is a call. -/
theorem separate_cases {c d : Conversion} {token : Token} {next : Option Token}
    (aligned : Aligned c.groups c.waiting) (separated : c.separate token next = .ok d) :
    ∃ (above below : List Token) (opening : Token) (group : Group) (outer : List Group),
      above ++ opening :: below = c.waiting ∧ (∀ t ∈ above, t.category ≠ .opening) ∧
        c.groups = group :: outer ∧ opening.category = .opening ∧ Opens group below ∧
        Aligned outer below ∧ d = ⟨opening :: below,
          group.map (·.nextArgument ((next.map Token.span).getD token.span)) :: outer,
          above.reverse ++ c.emitted⟩ := by
  unfold separate at separated
  cases splits : aboveOpening c.waiting with
  | none => simp [splits] at separated
  | some parts =>
      obtain ⟨above, rest⟩ := parts
      obtain ⟨whole, closed, opening, below, rfl, -⟩ := aboveOpening_eq splits
      obtain ⟨group, outer, open_, opens, fits, inner⟩ := aligned.split splits
      simp only [splits, open_, Except.ok.injEq] at separated
      subst separated
      refine ⟨above, below, opening, group, outer, whole, closed, open_, opens, fits, inner, ?_⟩
      cases group <;> rfl

/-- When the groups are aligned, what waits below the parenthesis of a call is its
routine, which a closing parenthesis emits as well. -/
theorem close_cases {c d : Conversion} {token : Token} (aligned : Aligned c.groups c.waiting)
    (closed : c.close token = .ok d) :
    ∃ (above below : List Token) (opening : Token) (outer : List Group),
      opening.category = .opening ∧ (∀ t ∈ above, t.category ≠ .opening) ∧ Aligned outer below ∧
        ((above ++ opening :: below = c.waiting ∧ c.groups = none :: outer ∧
            groupAbove below = none ∧ d = ⟨below, outer, above.reverse ++ c.emitted⟩) ∨
          ∃ call : OpenCall,
            above ++ opening :: ⟨.routine call.routine, call.span⟩ :: below = c.waiting ∧
              c.groups = some call :: outer ∧ call.fault? = none ∧
              d = ⟨below, outer,
                ⟨.routine call.routine, call.span⟩ :: (above.reverse ++ c.emitted)⟩) := by
  obtain ⟨above, below, opening, group, outer, splits, open_, becomes⟩ := close_eq_ok closed
  obtain ⟨whole, shut, -⟩ := aboveOpening_eq splits
  obtain ⟨group', outer', open', opens, fits, inner⟩ := aligned.split splits
  cases open_.symm.trans open'
  rcases becomes with ⟨rfl, rfl⟩ | ⟨call, rfl, complete, rfl⟩
  · exact ⟨above, below, opening, outer, opens, shut, inner, .inl ⟨whole, open_, fits, rfl⟩⟩
  · obtain ⟨rest, rfl⟩ := fits
    cases inner with
    | other _ inner =>
        exact ⟨above, rest, opening, outer, opens, shut, inner,
          .inr ⟨call, whole, open_, complete, rfl⟩⟩
    | opening opens => simp at opens

/-- Every step keeps the groups aligned with the parentheses. -/
theorem aligned_step {c d : Conversion} {token : Token} {next : Option Token}
    (aligned : Aligned c.groups c.waiting) (stepped : c.step token next = .ok d) :
    Aligned d.groups d.waiting := by
  obtain ⟨meaning, span⟩ := token
  cases meaning with
  | constant value => cases stepped; exact aligned
  | slot index => cases stepped; exact aligned
  | routine r => cases stepped; exact .other (by simp) aligned
  | operator o =>
      simp only [step, Except.ok.injEq] at stepped
      subst stepped
      refine .other (by simp) ?_
      rw [← aheadOf_eq o c.waiting] at aligned
      exact aligned.drop (aheadOf_closed o c.waiting)
  | opening => cases stepped; exact .opening rfl (opens_groupAbove _) aligned
  | separator =>
      obtain ⟨above, below, opening, group, outer, -, -, -, opens, fits, inner, rfl⟩ :=
        separate_cases aligned stepped
      exact .opening opens (fits.nextArgument _) inner
  | closing =>
      obtain ⟨above, below, opening, outer, -, -, inner,
        ⟨-, -, -, rfl⟩ | ⟨call, -, -, -, rfl⟩⟩ := close_cases aligned stepped
      · exact inner
      · exact inner

/-! ## Routines wait below parentheses -/

/-- What waits directly above a routine is an open parenthesis. -/
def Seats (upper lower : Token) : Prop := lower.category = .routine → upper.category = .opening

/-- Every routine waits directly below an open parenthesis, unless it is the last
token read and waits on top. -/
structure Seated (last : Option Token) (waiting : List Token) : Prop where
  chain : waiting.IsChain Seats
  top : groupAbove waiting = groupAbove last.toList

/-- Where no routine waits on top, none is uncovered by taking off what is not a
parenthesis. -/
theorem groupAbove_of_suffix {above rest : List Token}
    (chain : (above ++ rest).IsChain Seats) (closed : ∀ t ∈ above, t.category ≠ .opening)
    (top : groupAbove (above ++ rest) = none) : groupAbove rest = none := by
  induction above with
  | nil => exact top
  | cons t above ih =>
      rw [List.cons_append, List.isChain_cons] at chain
      refine ih chain.2 (fun u member => closed u (List.mem_cons_of_mem _ member)) ?_
      refine groupAbove_eq_none_iff.mpr fun u isHead isRoutine => ?_
      exact closed t (List.mem_cons_self ..) (chain.1 u isHead isRoutine)

theorem isChain_cons_of_groupAbove {t : Token} {waiting : List Token}
    (chain : waiting.IsChain Seats) (top : groupAbove waiting = none) :
    (t :: waiting).IsChain Seats := by
  rw [List.isChain_cons]
  exact ⟨fun u isHead isRoutine => absurd isRoutine (groupAbove_eq_none_iff.mp top u isHead), chain⟩

/-- If only an open parenthesis is read right after a routine, the routines stay
seated. -/
theorem seated_step {c d : Conversion} {last : Option Token} {token : Token}
    {next : Option Token} (aligned : Aligned c.groups c.waiting) (seated : Seated last c.waiting)
    (called : ∀ t, last = some t → t.category = .routine → token.category = .opening)
    (stepped : c.step token next = .ok d) : Seated (some token) d.waiting := by
  -- Before any other token no routine waits on top.
  have top : token.category ≠ .opening → groupAbove c.waiting = none := by
    intro other
    rw [seated.top, groupAbove_eq_none_iff]
    intro t isLast isRoutine
    exact other (called t (by cases last <;> simp_all) isRoutine)
  obtain ⟨meaning, span⟩ := token
  cases meaning with
  | constant value => cases stepped; exact ⟨seated.chain, top (by simp)⟩
  | slot index => cases stepped; exact ⟨seated.chain, top (by simp)⟩
  | routine r =>
      cases stepped
      exact ⟨isChain_cons_of_groupAbove seated.chain (top (by simp)), rfl⟩
  | operator o =>
      have top := top (by simp)
      have chain := seated.chain
      rw [← aheadOf_eq o c.waiting] at top chain
      simp only [step, Except.ok.injEq] at stepped
      subst stepped
      have uncovered := groupAbove_of_suffix chain (aheadOf_closed o c.waiting) top
      exact ⟨isChain_cons_of_groupAbove (List.isChain_append.mp chain).2.1 uncovered, rfl⟩
  | opening =>
      cases stepped
      refine ⟨?_, rfl⟩
      rw [List.isChain_cons]
      exact ⟨fun _ _ _ => rfl, seated.chain⟩
  | separator =>
      obtain ⟨above, below, opening, group, outer, whole, -, -, opens, -, -, rfl⟩ :=
        separate_cases aligned stepped
      have chain := seated.chain
      rw [← whole] at chain
      refine ⟨(List.isChain_append.mp chain).2.1, ?_⟩
      have notRoutine : groupAbove (opening :: below) = none := by
        rw [groupAbove_eq_none_iff]
        rintro t ⟨⟩
        simp [opens]
      exact notRoutine
  | closing =>
      have chain := seated.chain
      obtain ⟨above, below, opening, outer, opens, -, -,
        ⟨whole, -, uncovered, rfl⟩ | ⟨call, whole, -, -, rfl⟩⟩ := close_cases aligned stepped
      · rw [← whole] at chain
        exact ⟨(List.isChain_cons.mp (List.isChain_append.mp chain).2.1).2, uncovered⟩
      · rw [← whole] at chain
        have belowChain := (List.isChain_cons.mp (List.isChain_append.mp chain).2.1).2
        rw [List.isChain_cons] at belowChain
        refine ⟨belowChain.2, ?_⟩
        have uncovered : groupAbove below = none := by
          rw [groupAbove_eq_none_iff]
          intro t isHead isRoutine
          simpa using belowChain.1 t isHead isRoutine
        exact uncovered

end Conversion

/-! ## The groups alone -/

namespace Nesting

open Conversion

/-- How a token changes the open groups, by the tokens before and after it. -/
def step (groups : List Group) (last : Option Token) (token : Token) (next : Option Token) :
    Except Fault (List Group) :=
  match token.meaning, groups with
  | .opening, _ => .ok (groupAbove last.toList :: groups)
  | .separator, group :: outer =>
      .ok (group.map (·.nextArgument ((next.map Token.span).getD token.span)) :: outer)
  | .separator, [] => .error (.parenthesisMismatch token.span)
  | .closing, group :: outer =>
      match group.bind OpenCall.fault? with
      | some fault => .error fault
      | none => .ok outer
  | .closing, [] => .error (.parenthesisMismatch token.span)
  | _, _ => .ok groups

/-- The groups of a conversion change by themselves. -/
theorem groups_step {c : Conversion} {last : Option Token} (aligned : Aligned c.groups c.waiting)
    (seated : Seated last c.waiting) (token : Token) (next : Option Token) :
    (c.step token next).map Conversion.groups = step c.groups last token next := by
  obtain ⟨meaning, span⟩ := token
  cases meaning with
  | constant value => rfl
  | slot index => rfl
  | routine r => rfl
  | operator o => rfl
  | opening => simp [Conversion.step, step, Except.map, seated.top]
  | separator =>
      simp only [Conversion.step, separate]
      cases splits : aboveOpening c.waiting with
      | none => simp [step, aligned.eq_nil (aboveOpening_eq_none splits), Except.map]
      | some parts =>
          obtain ⟨above, rest⟩ := parts
          obtain ⟨-, -, opening, below, rfl, -⟩ := aboveOpening_eq splits
          obtain ⟨group, outer, open_, -⟩ := aligned.split splits
          cases group <;> simp [step, open_, Except.map]
  | closing =>
      simp only [Conversion.step, close]
      cases splits : aboveOpening c.waiting with
      | none => simp [step, aligned.eq_nil (aboveOpening_eq_none splits), Except.map]
      | some parts =>
          obtain ⟨above, rest⟩ := parts
          obtain ⟨-, -, opening, below, rfl, -⟩ := aboveOpening_eq splits
          obtain ⟨group, outer, open_, -, fits, -⟩ := aligned.split splits
          cases group with
          | none => simp [step, open_, Except.map]
          | some call =>
              obtain ⟨rest, rfl⟩ := fits
              cases fault : call.fault? <;> simp [step, open_, fault, emit, Except.map]

end Nesting

end Formula
