/-
# Formula.Proofs.Conversion.Reordering — phrases in postfix order

Read from any state of the conversion, the tokens of a primary are emitted in
the postorder of its tree, and the state is otherwise as it was
(`Primary.run_tokens`). The tokens of a phrase leave some operators waiting on
top of what was waiting before; together with them, what was emitted is the
postorder of its tree (`Phrase.run_tokens`).

Between the two stands `Run.reading`: the operators that wait on the stack are
the pending ones (`Awaits`), and what was emitted so far are the postorders of
their left operands (`settled`).
-/
import Formula.Proofs.Grammar.Phrase

namespace Formula

set_option autoImplicit false

namespace Conversion

/-! ## Steps -/

theorem run_cons {c d : Conversion} {token : Token} {rest : List Token}
    (stepped : c.step token rest.head? = .ok d) : c.run (token :: rest) = d.run rest := by
  rw [run, stepped]

/-- Everything up to the innermost open parenthesis is split off. -/
theorem aboveOpening_append {above below : List Token} {opening : Token}
    (closed : ∀ t ∈ above, t.category ≠ .opening) (opens : opening.category = .opening) :
    aboveOpening (above ++ opening :: below) = some (above, opening :: below) := by
  induction above with
  | nil => simp [aboveOpening, opens]
  | cons t above ih =>
      have head := closed t (List.mem_cons_self ..)
      have tail := ih fun u member => closed u (List.mem_cons_of_mem _ member)
      simp [aboveOpening, head, tail]

theorem step_separator {above below : List Token} {opening : Token} {call : OpenCall}
    {groups : List Group} {emitted : List Token} (span : Span) (next : Option Token)
    (closed : ∀ t ∈ above, t.category ≠ .opening) (opens : opening.category = .opening) :
    step ⟨above ++ opening :: below, some call :: groups, emitted⟩ ⟨.separator, span⟩ next =
      .ok ⟨opening :: below,
        some (call.nextArgument ((next.map Token.span).getD span)) :: groups,
        above.reverse ++ emitted⟩ := by
  simp [step, separate, aboveOpening_append closed opens, emit]

theorem step_closing_group {above below : List Token} {opening : Token}
    {groups : List Group} {emitted : List Token} (span : Span) (next : Option Token)
    (closed : ∀ t ∈ above, t.category ≠ .opening) (opens : opening.category = .opening) :
    step ⟨above ++ opening :: below, none :: groups, emitted⟩ ⟨.closing, span⟩ next =
      .ok ⟨below, groups, above.reverse ++ emitted⟩ := by
  simp [step, close, aboveOpening_append closed opens, emit]

theorem step_closing_call {above below : List Token} {opening callee : Token} {call : OpenCall}
    {groups : List Group} {emitted : List Token} (span : Span) (next : Option Token)
    (closed : ∀ t ∈ above, t.category ≠ .opening) (opens : opening.category = .opening)
    (complete : call.fault? = none) :
    step ⟨above ++ opening :: callee :: below, some call :: groups, emitted⟩
        ⟨.closing, span⟩ next =
      .ok ⟨below, groups, callee :: (above.reverse ++ emitted)⟩ := by
  simp [step, close, aboveOpening_append closed opens, emit, complete]

/-! ## Waiting operators -/

/-- The waiting tokens are the pending operators, newest first. -/
def Awaits (waiting : List Token) (pending : List (Operator × Tree)) : Prop :=
  waiting.map Token.meaning = pending.map fun p => .operator p.1

/-- What has been emitted for pending operators: the postorders of their left
operands, oldest first. -/
def settled : List (Operator × Tree) → List Meaning
  | [] => []
  | (_, left) :: pending => settled pending ++ left.postorder

/-- What the tokens of a phrase are read on top of: nothing, or an open
parenthesis. -/
def Floor (waiting : List Token) : Prop :=
  ∀ top, waiting.head? = some top → top.category = .opening

theorem Awaits.category {waiting : List Token} {pending : List (Operator × Tree)}
    (awaits : Awaits waiting pending) : ∀ t ∈ waiting, t.category = .operator := by
  intro t member
  have listed := List.mem_map_of_mem (f := Token.meaning) member
  rw [awaits] at listed
  obtain ⟨p, _, meaning⟩ := List.mem_map.mp listed
  rw [Token.category, ← meaning]
  rfl

/-- No routine waits on top where a phrase is read. -/
theorem Awaits.noCall {waiting floor : List Token} {pending : List (Operator × Tree)}
    (awaits : Awaits waiting pending) (isFloor : Floor floor) :
    ∀ top, (waiting ++ floor).head? = some top → top.category ≠ .routine := by
  intro top isTop
  cases waiting with
  | nil => simp [isFloor top isTop]
  | cons t waiting =>
      obtain rfl := Option.some.inj isTop
      simp [awaits.category t (List.mem_cons_self ..)]

theorem aheadOf_floor {waiting : List Token} (floor : Floor waiting) (o : Operator) :
    aheadOf o waiting = ([], waiting) := by
  cases waiting with
  | nil => rfl
  | cons top below =>
      have opens := floor top rfl
      obtain ⟨meaning, span⟩ := top
      cases meaning <;> simp_all [aheadOf]

/-- An operator emits the waiting operators that it takes over. -/
theorem aheadOf_append {waiting : List Token} {pending : List (Operator × Tree)}
    (awaits : Awaits waiting pending) {below : List Token} (floor : Floor below) (o : Operator)
    (current : Tree) :
    ∃ ahead kept, aheadOf o (waiting ++ below) = (ahead, kept ++ below) ∧
      Awaits kept (Run.reduce o pending current).1 ∧
      settled (Run.reduce o pending current).1 ++ (Run.reduce o pending current).2.postorder =
        settled pending ++ current.postorder ++ ahead.map Token.meaning := by
  induction pending generalizing waiting current with
  | nil =>
      obtain rfl := List.map_eq_nil_iff.mp awaits
      exact ⟨[], [], aheadOf_floor floor o, rfl, by simp [Run.reduce, settled]⟩
  | cons p pending ih =>
      obtain ⟨p, left⟩ := p
      obtain ⟨token, waiting, rfl, meaning, tail⟩ := List.map_eq_cons_iff.mp awaits
      simp only [Run.reduce, List.cons_append, aheadOf, meaning]
      split
      · obtain ⟨ahead, kept, splits, awaits', order⟩ := ih tail (.apply p left current)
        refine ⟨token :: ahead, kept, by rw [splits], awaits', ?_⟩
        simp only [order, settled, Tree.postorder, List.map_cons, meaning, List.append_assoc,
          List.singleton_append]
      · exact ⟨[], token :: waiting, rfl, awaits, by simp [settled]⟩

/-- Once all pending operators are emitted, their tree is complete. -/
theorem postorder_collapse (pending : List (Operator × Tree)) (current : Tree) :
    (Run.collapse pending current).postorder =
      settled pending ++ current.postorder ++ pending.map fun p => .operator p.1 := by
  induction pending generalizing current with
  | nil => simp [Run.collapse, settled]
  | cons p pending ih => simp [Run.collapse, ih, settled, Tree.postorder]

end Conversion

/-! ## Reading the grammar -/

open Conversion

/-- A call that has as many arguments as it takes can be closed. -/
theorem OpenCall.fault?_eq_none {call : OpenCall} (count : call.arguments = call.routine.arity)
    (fits : call.excess = none) : call.fault? = none := by
  simp [OpenCall.fault?, count, fits]

theorem OpenCall.nextArgument_of_le {call : OpenCall}
    (room : call.arguments + 1 ≤ call.routine.arity) (place : Span) :
    call.nextArgument place = { call with arguments := call.arguments + 1 } := by
  have notOver : ¬ call.routine.arity < call.arguments + 1 := by omega
  simp [OpenCall.nextArgument, notOver]

/-- The token of a call that names its routine. -/
def Primary.callee? : Primary → Option Token
  | .call r name _ _ _ => some ⟨.routine r, name⟩
  | _ => none

mutual

/-- The tokens of a primary are emitted in the postorder of its tree, those of a
call with the routine last. -/
theorem Primary.run_tokens : ∀ (operand : Primary) (waiting : List Token) (groups : List Group)
    (emitted rest : List Token),
    (∀ top, waiting.head? = some top → top.category ≠ .routine) →
      ∃ out : List Token, out.map Token.meaning = operand.tree.postorder ∧
        (∀ callee, operand.callee? = some callee → out.getLast? = some callee) ∧
        Conversion.run ⟨waiting, groups, emitted⟩ (operand.tokens ++ rest) =
          Conversion.run ⟨waiting, groups, out.reverse ++ emitted⟩ rest
  | .constant value span, _, _, _, _, _ => ⟨[⟨.constant value, span⟩], rfl, by rintro _ ⟨⟩, rfl⟩
  | .slot index span, _, _, _, _, _ => ⟨[⟨.slot index, span⟩], rfl, by rintro _ ⟨⟩, rfl⟩
  | .group opening inner closing, waiting, groups, emitted, rest, noCall => by
      have plain : groupAbove waiting = none := by
        cases waiting with
        | nil => rfl
        | cons top below =>
            obtain ⟨meaning, span⟩ := top
            have notRoutine := noCall _ rfl
            cases meaning <;> simp_all [groupAbove]
      obtain ⟨out, kept, closed, order, runs⟩ := inner.run_tokens [] []
        (⟨.opening, opening⟩ :: waiting) (none :: groups) emitted (⟨.closing, closing⟩ :: rest) rfl
        (by rintro top ⟨⟩; rfl)
      refine ⟨out ++ kept, ?_, by rintro _ ⟨⟩, ?_⟩
      · simpa [settled, Run.reading_eq_tree, Primary.tree] using order
      · simp only [Primary.tokens, List.cons_append, List.append_assoc, List.nil_append]
        rw [run_cons (d := ⟨⟨.opening, opening⟩ :: waiting, none :: groups, emitted⟩)
          (by simp [step, plain]), ← List.nil_append (⟨.opening, opening⟩ :: waiting), runs,
          run_cons (step_closing_group closing _
            (fun t member => by simp [closed t member]) rfl)]
        simp
  | .call r name opening arguments closing, waiting, groups, emitted, rest, _ => by
      obtain ⟨out, kept, closed, order, runs⟩ := arguments.run_tokens ⟨r, name, 1, none⟩
        ⟨.opening, opening⟩ (⟨.routine r, name⟩ :: waiting) groups emitted
        (⟨.closing, closing⟩ :: rest) rfl rfl (by simp; omega)
      have complete : OpenCall.fault? ⟨r, name, 1 + (r.arity - 1), none⟩ = none :=
        OpenCall.fault?_eq_none (by have := arguments.positive; simp; omega) rfl
      refine ⟨out ++ kept ++ [⟨.routine r, name⟩], ?_, ?_, ?_⟩
      · simp [Primary.tree, Tree.postorder, ← order]
      · rintro callee ⟨⟩
        exact List.getLast?_concat
      · simp only [Primary.tokens, List.cons_append, List.append_assoc, List.nil_append]
        rw [run_cons (d := ⟨⟨.routine r, name⟩ :: waiting, groups, emitted⟩) rfl,
          run_cons (d := ⟨⟨.opening, opening⟩ :: ⟨.routine r, name⟩ :: waiting,
            some ⟨r, name, 1, none⟩ :: groups, emitted⟩) rfl, runs,
          run_cons (step_closing_call closing _
            (fun t member => by simp [closed t member]) rfl complete)]
        simp

/-- The tokens of a phrase leave operators waiting, and the postorder of its
tree is what was emitted, followed by them. -/
theorem Phrase.run_tokens : ∀ (p : Phrase) (pending : List (Operator × Tree))
    (waiting floor : List Token) (groups : List Group) (emitted rest : List Token),
    Awaits waiting pending → Floor floor →
      ∃ out kept : List Token, (∀ t ∈ kept, t.category = .operator) ∧
        settled pending ++ (out ++ kept).map Token.meaning =
          (Run.reading pending p.run.first p.run.rest).postorder ∧
        Conversion.run ⟨waiting ++ floor, groups, emitted⟩ (p.tokens ++ rest) =
          Conversion.run ⟨kept ++ floor, groups, out.reverse ++ emitted⟩ rest
  | .last operand, pending, waiting, floor, groups, emitted, rest, awaits, isFloor => by
      obtain ⟨out, order, -, runs⟩ := operand.run_tokens (waiting ++ floor) groups emitted rest
        (awaits.noCall isFloor)
      refine ⟨out, waiting, awaits.category, ?_, runs⟩
      rw [List.map_append, order, awaits]
      simp [Phrase.run, Run.single, Run.reading, postorder_collapse]
  | .chain operand o span rest', pending, waiting, floor, groups, emitted, rest, awaits,
      isFloor => by
      obtain ⟨first, firstOrder, -, firstRuns⟩ := operand.run_tokens (waiting ++ floor) groups
        emitted (⟨.operator o, span⟩ :: (rest'.tokens ++ rest)) (awaits.noCall isFloor)
      obtain ⟨ahead, kept, splits, awaits', order⟩ :=
        aheadOf_append awaits isFloor o operand.tree
      let reduced := Run.reduce o pending operand.tree
      obtain ⟨out, kept', closed, laterOrder, runs⟩ := rest'.run_tokens
        ((o, reduced.2) :: reduced.1) (⟨.operator o, span⟩ :: kept) floor groups
        (ahead.reverse ++ (first.reverse ++ emitted)) rest
        (by simp only [Awaits, List.map_cons]; rw [awaits']) isFloor
      refine ⟨first ++ ahead ++ out, kept', closed, ?_, ?_⟩
      · have reading : Run.reading pending (Phrase.run (.chain operand o span rest')).first
            (Phrase.run (.chain operand o span rest')).rest =
              Run.reading ((o, reduced.2) :: reduced.1) rest'.run.first rest'.run.rest := by
          simp [Phrase.run, Run.join, Run.single, Run.reading, reduced]
        rw [reading, ← laterOrder, settled, order, List.map_append, List.map_append,
          List.map_append, firstOrder]
        simp
      · simp only [Phrase.tokens, List.append_assoc, List.cons_append]
        rw [firstRuns, run_cons (d := ⟨⟨.operator o, span⟩ :: kept ++ floor, groups,
          ahead.reverse ++ (first.reverse ++ emitted)⟩) (by simp [step, splits, emit]), runs]
        simp

/-- The tokens of arguments are emitted one phrase after the other, and the open
call counts them. -/
theorem Arguments.run_tokens : ∀ {n : Nat} (arguments : Arguments n) (call : OpenCall)
    (opening : Token) (below : List Token) (groups : List Group) (emitted rest : List Token),
    opening.category = .opening → call.excess = none →
    call.arguments + n ≤ call.routine.arity + 1 →
      ∃ out kept : List Token, (∀ t ∈ kept, t.category = .operator) ∧
        (out ++ kept).map Token.meaning = Tree.postorderOfAll arguments.trees ∧
        Conversion.run ⟨opening :: below, some call :: groups, emitted⟩ (arguments.tokens ++ rest) =
          Conversion.run ⟨kept ++ opening :: below,
            some { call with arguments := call.arguments + (n - 1) } :: groups,
            out.reverse ++ emitted⟩ rest
  | _, .last argument, call, opening, below, groups, emitted, rest, opens, _, _ => by
      obtain ⟨out, kept, closed, order, runs⟩ := argument.run_tokens [] [] (opening :: below)
        (some call :: groups) emitted rest rfl (by rintro top ⟨⟩; exact opens)
      refine ⟨out, kept, closed, ?_, runs⟩
      simpa [settled, Run.reading_eq_tree, Arguments.trees, Tree.postorderOfAll] using order
  | _, .more (n := n) argument separator others, call, opening, below, groups, emitted, rest, opens,
      fits, room => by
      have positive := others.positive
      obtain ⟨first, kept, closed, order, runs⟩ := argument.run_tokens [] [] (opening :: below)
        (some call :: groups) emitted (⟨.separator, separator⟩ :: (others.tokens ++ rest)) rfl
        (by rintro top ⟨⟩; exact opens)
      obtain ⟨out, kept', closed', laterOrder, laterRuns⟩ := others.run_tokens
        { call with arguments := call.arguments + 1 } opening below groups
        (kept.reverse ++ (first.reverse ++ emitted)) rest opens fits (by simp; omega)
      refine ⟨first ++ kept ++ out, kept', closed', ?_, ?_⟩
      · simp only [List.append_assoc, List.map_append] at order laterOrder ⊢
        simp only [settled, List.nil_append, Run.reading_eq_tree] at order
        rw [Arguments.trees, Tree.postorderOfAll, ← order, ← laterOrder]
        simp
      · simp only [Arguments.tokens, List.append_assoc, List.cons_append]
        rw [← List.nil_append (opening :: below), runs,
          run_cons (step_separator separator _ (fun t member => by simp [closed t member]) opens),
          OpenCall.nextArgument_of_le (by omega), laterRuns]
        have count : call.arguments + 1 + (n - 1) = call.arguments + (n + 1 - 1) := by omega
        simp [count]

end

end Formula
