/-
# Formula.Proofs.Blame — what a fault points at

A fault in the tokens of a formula points at one of them, or from the start of one
to the end of another (`Blames`). The conversion takes the places that it reports
from the tokens it has read, or from the one it reads next (`Drawn`). The assembly
keeps with every operand a span from token to token (`Spans`), and since the tokens
were put in order, all that can stop it is a tree that is too high or an operand
that is left over.

Tokens stand in their source with room of their own. So every report of a source
that does not compile is labelled under whole tokens or under the text that could
not be read, and the reports that have no label are known (`compile_blames`).
-/
import Formula.Proofs.Compiling
import Formula.Proofs.Conversion.Supply
import Formula.Proofs.Lexer.Layout
import Formula.Registry.Standard

namespace Formula

set_option autoImplicit false

/-- A span from the start of a token to the end of the same one or of one after it. -/
def Spans (tokens : List Token) (span : Span) : Prop :=
  ∃ first ∈ tokens, ∃ last ∈ tokens, first.span.start ≤ last.span.start ∧
    span = ⟨first.span.start, last.span.stop⟩

/-- A fault is due to some tokens, and points at the ones to blame. -/
inductive Blames (tokens : List Token) : Fault → Prop where
  | misplaced {t : Token} (reason : Misplacement) :
    t ∈ tokens → Blames tokens (.misplaced reason t.span)
  | parenthesis {t : Token} : t ∈ tokens → Blames tokens (.parenthesisMismatch t.span)
  | arguments {r : Routine} {span : Span} (found : Nat) :
    ⟨.routine r, span⟩ ∈ tokens → Blames tokens (.missingArguments r.name r.arity found span)
  | excess {span : Span} : Spans tokens span → Blames tokens (.constantsExcess span)
  | height {t : Token} : t ∈ tokens → t.category = .operator ∨ t.category = .routine →
    Blames tokens (.tooDeep Tree.maxHeight t.span)

theorem Spans.token {tokens : List Token} {t : Token} (member : t ∈ tokens) :
    Spans tokens t.span :=
  ⟨t, member, t, member, Nat.le_refl _, rfl⟩

/-- Two such spans are covered by one. -/
theorem Spans.hull {tokens : List Token} {s t : Span} (left : Spans tokens s)
    (right : Spans tokens t) : Spans tokens (s.hull t) := by
  obtain ⟨first, isFirst, last, isLast, order, rfl⟩ := left
  obtain ⟨first', isFirst', last', isLast', order', rfl⟩ := right
  -- The earlier start and the later end may come from different spans.
  have start : ∃ u ∈ tokens, u.span.start = min first.span.start first'.span.start := by
    rcases Nat.le_total first.span.start first'.span.start with le | le
    · exact ⟨first, isFirst, (Nat.min_eq_left le).symm⟩
    · exact ⟨first', isFirst', (Nat.min_eq_right le).symm⟩
  obtain ⟨u, isToken, start⟩ := start
  rcases Nat.le_total last.span.stop last'.span.stop with le | le
  · refine ⟨u, isToken, last', isLast', by omega, ?_⟩
    rw [Span.hull, start, Nat.max_eq_right le]
  · refine ⟨u, isToken, last, isLast, by omega, ?_⟩
    rw [Span.hull, start, Nat.max_eq_left le]

theorem Spans.mono {tokens all : List Token} {span : Span} (spans : Spans tokens span)
    (inside : ∀ t ∈ tokens, t ∈ all) : Spans all span := by
  obtain ⟨first, isFirst, last, isLast, order, rfl⟩ := spans
  exact ⟨first, inside first isFirst, last, inside last isLast, order, rfl⟩

/-! ## The order of tokens -/

namespace Infix

theorem blames_firstClash? {tokens : List Token} {fault : Fault}
    (clashes : firstClash? tokens = some fault) : Blames tokens fault := by
  fun_induction firstClash? tokens with
  | case1 first second rest reason =>
      cases clashes
      exact .misplaced reason (List.mem_cons_of_mem _ (List.mem_cons_self ..))
  | case2 first second rest _ ih =>
      cases ih clashes with
      | misplaced reason member => exact .misplaced reason (List.mem_cons_of_mem _ member)
      | parenthesis member => exact .parenthesis (List.mem_cons_of_mem _ member)
      | arguments found member => exact .arguments found (List.mem_cons_of_mem _ member)
      | excess spans => exact .excess (spans.mono fun _ => List.mem_cons_of_mem _)
      | height member node => exact .height (List.mem_cons_of_mem _ member) node
  | case3 => cases clashes

/-- Tokens out of order are to blame, unless there are none. -/
theorem blames_check {tokens : List Token} {fault : Fault}
    (failed : check tokens = .error fault) :
    (tokens = [] ∧ fault = .undefinedSymbol none) ∨ Blames tokens fault := by
  unfold check at failed
  split at failed
  · rename_i found
    cases failed
    unfold fault? at found
    split at found
    · cases found
      exact .inl ⟨rfl, rfl⟩
    · rename_i first rest
      refine .inr ?_
      dsimp only at found
      split at found
      · cases found
        exact .misplaced _ (List.mem_cons_self ..)
      split at found
      · cases found
        exact .misplaced _ (List.mem_cons_self ..)
      split at found
      · rename_i clashes
        cases found
        exact blames_firstClash? clashes
      · split at found
        · cases found
        · cases found
          exact .misplaced _ (List.getLast_mem _)
  · cases failed

end Infix

/-! ## Postfix order -/

namespace Conversion

variable {all : List Token}

/-- A call stands among some tokens, and so does what it marks as its excess. -/
def Notes (all : List Token) (call : OpenCall) : Prop :=
  ⟨.routine call.routine, call.span⟩ ∈ all ∧
    ∀ place, call.excess = some place → ∃ t ∈ all, t.span = place

/-- All that a conversion holds, and the places it has noted, come from some tokens. -/
structure Drawn (all : List Token) (c : Conversion) : Prop where
  aligned : Aligned c.groups c.waiting
  held : ∀ t ∈ c.held, t ∈ all
  notes : ∀ call, some call ∈ c.groups → Notes all call

theorem Notes.nextArgument {call : OpenCall} {t : Token} (notes : Notes all call)
    (member : t ∈ all) : Notes all (call.nextArgument t.span) := by
  refine ⟨notes.1, fun place marked => ?_⟩
  simp only [OpenCall.nextArgument] at marked
  split at marked
  · cases marked
    exact ⟨t, member, rfl⟩
  · exact notes.2 place marked

theorem notes_groupAbove {waiting : List Token} {call : OpenCall}
    (inside : ∀ t ∈ waiting, t ∈ all) (opens : groupAbove waiting = some call) :
    Notes all call := by
  unfold groupAbove at opens
  split at opens
  · cases opens
    exact ⟨inside _ (List.mem_cons_self ..), fun _ unmarked => by cases unmarked⟩
  · cases opens

/-- A call with a wrong number of arguments is to blame, or the first argument past
its arity is. -/
theorem Notes.blames {call : OpenCall} {fault : Fault} (notes : Notes all call)
    (failed : call.fault? = some fault) : Blames all fault := by
  unfold OpenCall.fault? at failed
  split at failed
  · cases failed
    exact .arguments _ notes.1
  · obtain ⟨place, marked, rfl⟩ := Option.map_eq_some_iff.mp failed
    obtain ⟨t, member, rfl⟩ := notes.2 place marked
    exact .excess (.token member)

theorem close_eq_error {c : Conversion} {token : Token} {fault : Fault}
    (failed : c.close token = .error fault) :
    fault = .parenthesisMismatch token.span ∨
      ∃ call, some call ∈ c.groups ∧ call.fault? = some fault := by
  unfold close at failed
  split at failed
  · rename_i open_
    split at failed
    · cases failed
    · rename_i call
      split at failed
      · cases failed
        exact .inr ⟨call, by rw [open_]; exact List.mem_cons_self .., by assumption⟩
      · cases failed
      · cases failed
  · cases failed
    exact .inl rfl

section Step

variable {c d : Conversion} {token : Token} {next : Option Token}

/-- The place of a separator's argument is that of a token. -/
theorem exists_place (member : token ∈ all) (later : ∀ u, next = some u → u ∈ all) :
    ∃ t ∈ all, t.span = (next.map Token.span).getD token.span := by
  cases next with
  | none => exact ⟨token, member, rfl⟩
  | some u => exact ⟨u, later u rfl, rfl⟩

/-- A step draws on the token that it reads and on the next one. -/
theorem drawn_step (drawn : Drawn all c) (member : token ∈ all)
    (later : ∀ u, next = some u → u ∈ all) (stepped : c.step token next = .ok d) :
    Drawn all d := by
  obtain ⟨aligned, held, notes⟩ := drawn
  have heldNext : ∀ t ∈ d.held, t ∈ all := by
    obtain ⟨dropped, -, kept⟩ := held_step stepped
    intro t inside
    rcases List.mem_cons.mp (kept.mem_iff.mp (List.mem_append_right _ inside)) with rfl | before
    · exact member
    · exact held t before
  refine ⟨aligned_step aligned stepped, heldNext, ?_⟩
  obtain ⟨meaning, span⟩ := token
  cases meaning with
  | constant value => cases stepped; exact notes
  | slot index => cases stepped; exact notes
  | routine r => cases stepped; exact notes
  | operator o => cases stepped; exact notes
  | opening =>
      cases stepped
      intro call open_
      rcases List.mem_cons.mp open_ with opens | outer
      · exact notes_groupAbove (fun t inside => held t (List.mem_append_right _ inside)) opens.symm
      · exact notes call outer
  | separator =>
      obtain ⟨above, below, opening, group, outer, -, -, open_, -, -, -, rfl⟩ :=
        separate_cases aligned stepped
      obtain ⟨t, isToken, place⟩ := exists_place member later
      intro call inside
      rcases List.mem_cons.mp inside with counted | enclosing
      · obtain ⟨call', rfl, rfl⟩ := Option.map_eq_some_iff.mp counted.symm
        have before := notes call' (by rw [open_]; exact List.mem_cons_self ..)
        rw [← place]
        exact before.nextArgument isToken
      · exact notes call (by rw [open_]; exact List.mem_cons_of_mem _ enclosing)
  | closing =>
      obtain ⟨above, below, opening, outer, -, -, -,
        ⟨-, open_, -, rfl⟩ | ⟨call, -, open_, -, rfl⟩⟩ := close_cases aligned stepped
      all_goals
        intro call inside
        exact notes call (by rw [open_]; exact List.mem_cons_of_mem _ inside)

theorem blames_step {fault : Fault} (drawn : Drawn all c) (member : token ∈ all)
    (failed : c.step token next = .error fault) : Blames all fault := by
  obtain ⟨meaning, span⟩ := token
  cases meaning with
  | separator =>
      simp only [step, separate] at failed
      split at failed
      · cases failed
        exact .parenthesis member
      · cases failed
  | closing =>
      rcases close_eq_error failed with rfl | ⟨call, inside, found⟩
      · exact .parenthesis member
      · exact (drawn.notes call inside).blames found
  | _ => cases failed

end Step

/-- A run draws on the tokens that it reads, and stops at them. -/
theorem drawn_run {c : Conversion} {tokens : List Token} (drawn : Drawn all c)
    (inside : ∀ t ∈ tokens, t ∈ all) :
    (∀ d, c.run tokens = .ok d → Drawn all d) ∧
      ∀ fault, c.run tokens = .error fault → Blames all fault := by
  induction tokens generalizing c with
  | nil =>
      refine ⟨fun d ran => ?_, fun fault failed => by cases failed⟩
      cases ran
      exact drawn
  | cons token rest ih =>
      have member := inside token (List.mem_cons_self ..)
      have insideRest : ∀ t ∈ rest, t ∈ all := fun t there =>
        inside t (List.mem_cons_of_mem _ there)
      have later : ∀ u, rest.head? = some u → u ∈ all := fun u isHead =>
        insideRest u (List.mem_of_head? isHead)
      rw [run]
      cases stepped : c.step token rest.head? with
      | error fault =>
          refine ⟨fun d ran => (by cases ran), fun fault' failed => ?_⟩
          cases failed
          exact blames_step drawn member stepped
      | ok next => exact ih (drawn_step drawn member later stepped) insideRest

theorem drawn_start (all : List Token) : Drawn all start :=
  ⟨.nil, by simp [start, held], by simp [start]⟩

end Conversion

open Conversion in
/-- Tokens that cannot be put in postfix order are to blame for it. -/
theorem blames_toPostfix {tokens : List Token} {fault : Fault}
    (failed : toPostfix tokens = .error fault) : Blames tokens fault := by
  obtain ⟨draws, stops⟩ := drawn_run (drawn_start tokens) fun _ => id
  unfold toPostfix at failed
  cases ran : start.run tokens with
  | error fault' =>
      rw [ran] at failed
      cases failed
      exact stops _ ran
  | ok c =>
      rw [ran] at failed
      simp only [finish] at failed
      split at failed
      · rename_i opening found
        cases failed
        refine .parenthesis ((draws c ran).held opening (List.mem_append_right _ ?_))
        exact List.mem_of_find?_eq_some found
      · cases failed

open Conversion in
/-- Postfix order has no tokens of its own. -/
theorem mem_of_toPostfix {tokens out : List Token} (converted : toPostfix tokens = .ok out) :
    ∀ t ∈ out, t ∈ tokens := by
  obtain ⟨c, ran, -, rfl⟩ := toPostfix_eq_ok_iff.mp converted
  obtain ⟨draws, -⟩ := drawn_run (drawn_start tokens) fun _ => id
  intro t member
  refine (draws c ran).held t ?_
  simpa [held] using member

/-! ## The tree -/

namespace Assembly

variable {tokens : List Token} {operands : List Operand}

/-- Every operand covers some tokens, from the first of them to the last. -/
def Located (tokens : List Token) (operands : List Operand) : Prop :=
  ∀ a ∈ operands, Spans tokens a.span

theorem Located.call {arguments : List Operand} (r : Routine) {span : Span}
    (located : Located tokens arguments) (spans : Spans tokens span) :
    Spans tokens (Operand.call r span arguments).span := by
  simp only [Operand.call]
  induction arguments generalizing span with
  | nil => exact spans
  | cons a arguments ih =>
      have here := spans.hull (located a (List.mem_cons_self ..))
      exact ih (fun b member => located b (List.mem_cons_of_mem _ member)) here

theorem located_push {stack pushed : List Operand} {span : Span} {operand : Operand}
    (located : Located tokens stack) (spans : Spans tokens operand.span)
    (pushes : push stack span operand = .ok pushed) : Located tokens pushed := by
  unfold push at pushes
  split at pushes
  · cases pushes
  · cases pushes
    intro a member
    rcases List.mem_cons.mp member with rfl | below
    · exact spans
    · exact located a below

/-- What a token puts on the stack covers the token and what it took off. -/
theorem located_step {token : Token} {next : List Operand} (located : Located tokens operands)
    (member : token ∈ tokens) (stepped : step operands token = .ok next) :
    Located tokens next := by
  have own := Spans.token member
  obtain ⟨meaning, span⟩ := token
  cases meaning with
  | constant value => exact located_push located own stepped
  | slot index => exact located_push located own stepped
  | operator o =>
      simp only [step] at stepped
      split at stepped
      · rename_i rhs lhs below
        have left := located lhs (by simp)
        have right := located rhs (by simp)
        refine located_push (fun a there => located a ?_) ((own.hull left).hull right) stepped
        exact List.mem_cons_of_mem _ (List.mem_cons_of_mem _ there)
      · cases stepped
  | routine r =>
      simp only [step] at stepped
      split at stepped
      · cases stepped
      · have taken : Located tokens (operands.take r.arity).reverse := fun a there =>
          located a (List.mem_of_mem_take (List.mem_reverse.mp there))
        exact located_push (fun a there => located a (List.mem_of_mem_drop there))
          (taken.call r own) stepped
  | opening => cases stepped
  | closing => cases stepped
  | separator => cases stepped

/-- An operator or a routine that is put on top of too high a tree is to blame. -/
theorem height_push {token : Token} {stack : List Operand} {operand : Operand} {limit : Nat}
    {span : Span} (member : token ∈ tokens)
    (node : token.category = .operator ∨ token.category = .routine)
    (failed : push stack token.span operand = .error (.tooDeep limit span)) :
    Blames tokens (.tooDeep limit span) := by
  unfold push at failed
  split at failed
  · cases failed
    exact .height member node
  · cases failed

/-- Only an operator or a routine makes a tree too high. -/
theorem height_step {token : Token} {limit : Nat} {span : Span} (member : token ∈ tokens)
    (failed : step operands token = .error (.tooDeep limit span)) :
    Blames tokens (.tooDeep limit span) := by
  obtain ⟨meaning, place⟩ := token
  cases meaning with
  | constant value => cases (push_leaf operands _ place).symm.trans failed
  | slot index => cases (push_leaf operands _ place).symm.trans failed
  | operator o =>
      simp only [step] at failed
      split at failed
      · exact height_push member (.inl rfl) failed
      · cases failed
  | routine r =>
      simp only [step] at failed
      split at failed
      · cases failed
      · exact height_push member (.inr rfl) failed
  | opening => cases failed
  | closing => cases failed
  | separator => cases failed

theorem located_run {read : List Token} (located : Located tokens operands)
    (inside : ∀ t ∈ read, t ∈ tokens) :
    (∀ stack, run operands read = .ok stack → Located tokens stack) ∧
      ∀ limit span, run operands read = .error (.tooDeep limit span) →
        Blames tokens (.tooDeep limit span) := by
  induction read generalizing operands with
  | nil =>
      refine ⟨fun stack ran => ?_, fun limit span failed => by cases failed⟩
      cases ran
      exact located
  | cons token rest ih =>
      have member := inside token (List.mem_cons_self ..)
      rw [run]
      cases stepped : step operands token with
      | error fault =>
          refine ⟨fun stack ran => (by cases ran), fun limit span failed => ?_⟩
          cases failed
          exact height_step member stepped
      | ok next =>
          exact ih (located_step located member stepped) fun t there =>
            inside t (List.mem_cons_of_mem _ there)

end Assembly

/-- Tokens in postfix order that give no tree are to blame for that. -/
theorem blames_ofPostfix {tokens out : List Token} {fault : Fault}
    (ordered : Infix.Ordered tokens) (converted : toPostfix tokens = .ok out)
    (failed : Tree.ofPostfix out = .error fault) : Blames tokens fault := by
  have measured : Forest.Measured [] := by simp [Forest.Measured]
  have nothing : Assembly.Located tokens [] := by simp [Assembly.Located]
  obtain ⟨located, high⟩ := Assembly.located_run nothing (mem_of_toPostfix converted)
  obtain ⟨trees, grown, some_⟩ := Conversion.exists_forest ordered converted
  obtain ⟨builds, stops⟩ := Forest.run_of_growAll measured (by simp [Tree.heightOfAll]) grown
  rw [Tree.ofPostfix] at failed
  rcases Nat.lt_or_ge Tree.maxHeight (Tree.heightOfAll trees) with isHigh | isLow
  · obtain ⟨t, -, ran⟩ := stops isHigh
    have blames := high _ _ ran
    rw [ran] at failed
    cases failed
    exact blames
  · obtain ⟨stack, ran, rfl⟩ := builds isLow
    have places := located stack ran
    rw [ran] at failed
    simp only [Assembly.finish] at failed
    split at failed
    · rename_i empty
      rw [List.reverse_eq_nil_iff.mp empty] at some_
      simp at some_
    · cases failed
    · rename_i second rest several
      cases failed
      refine .excess (places second (List.mem_reverse.mp ?_))
      rw [several]
      simp

theorem blames_treeOfTokens {tokens : List Token} {fault : Fault}
    (failed : treeOfTokens tokens = .error fault) :
    (tokens = [] ∧ fault = .undefinedSymbol none) ∨ Blames tokens fault := by
  simp only [treeOfTokens, bind, Except.bind] at failed
  split at failed
  · rename_i checked
    cases failed
    exact Infix.blames_check checked
  · rename_i checked
    obtain ⟨rfl, ordered⟩ := Infix.check_eq_ok_iff.mp checked
    refine .inr ?_
    split at failed
    · rename_i converted
      cases failed
      exact blames_toPostfix converted
    · rename_i converted
      exact blames_ofPostfix ordered converted failed

/-! ## The source -/

/-- The place in the source that is labelled. -/
def Label.span (label : Label) : Span := ⟨label.start, label.start + label.length⟩

/-- A text in which the lexer finds no token and no fault is all white space. -/
theorem Lexer.isBlank_of_scan {scope : Scope} {pattern : Pattern} {cs : List Char} {offset : Nat}
    {previous : Option Category} (nothing : (scan scope pattern cs offset previous).tokens = [])
    (noFault : (scan scope pattern cs offset previous).fault = none) :
    ∀ c ∈ cs, Text.isBlank c = true := by
  fun_induction scan scope pattern cs offset previous with
  | case1 => exact stray?_eq_none_iff.mp noFault
  | case2 => cases noFault
  | case3 => cases noFault
  | case4 =>
      rename_i made later ih
      exact absurd (List.append_eq_nil_iff.mp nothing).1 (read_ne_nil made)

/-- Where a fault points, it labels, if that is a place in the source at all. -/
theorem exists_label {fault : Fault} {span : Span} {source piece : List Char}
    (points : fault.span? = some span) (cuts : span.Cuts source piece) :
    ∃ label, fault.labels = [label] ∧ label.span = span := by
  obtain ⟨before, after, -, rfl⟩ := cuts
  refine ⟨_, by rw [Fault.labels, points]; rfl, ?_⟩
  simp only [Label.span, Span.length, Nat.add_sub_cancel_left]

/-- What a fault blames are whole tokens of the source, which is where it points. -/
theorem cuts_of_blames {source : List Char} {tokens : List Token} {fault : Fault}
    (laid : Lexer.Laid source 0 tokens) (blames : Blames tokens fault) :
    ∃ span piece, fault.span? = some span ∧ piece ≠ [] ∧ span.Cuts source piece := by
  have start : 0 = Text.byteLength [] := rfl
  have cuts := laid.cuts start
  have token : ∀ {t : Token}, t ∈ tokens → fault.span? = some t.span →
      ∃ span piece, fault.span? = some span ∧ piece ≠ [] ∧ span.Cuts source piece := by
    intro t member points
    obtain ⟨piece, some_, cut⟩ := cuts t member
    exact ⟨t.span, piece, points, some_, cut⟩
  cases blames with
  | misplaced reason member => exact token member rfl
  | parenthesis member => exact token member rfl
  | arguments found member => exact token member rfl
  | height member => exact token member rfl
  | excess spans =>
      obtain ⟨first, isFirst, last, isLast, inOrder, rfl⟩ := spans
      obtain ⟨p, -, cut⟩ := cuts first isFirst
      obtain ⟨q, some_, cutLast⟩ := cuts last isLast
      obtain ⟨piece, someOf, cutAll⟩ := cut.join cutLast inOrder some_
      exact ⟨_, piece, rfl, someOf, cutAll⟩

/-- A source that gives no tree is at fault for a piece of its text or for some of its
tokens, or it is all white space. -/
theorem blames_treeOf {scope : Scope} {source : List Char} {fault : Fault}
    (failed : treeOf scope source = .error fault) :
    Lexer.About source fault ∨ Blames (lex scope source).tokens fault ∨
      (fault = .undefinedSymbol none ∧ ∀ c ∈ source, Text.isBlank c = true) := by
  simp only [treeOf, bind, Except.bind, tokenize] at failed
  cases lexed : (lex scope source).fault with
  | some unread =>
      simp only [lexed, Except.error.injEq] at failed
      subst failed
      exact .inl (Lexer.about_of_lex lexed)
  | none =>
      simp only [lexed] at failed
      rcases blames_treeOfTokens failed with ⟨nothing, rfl⟩ | blames
      · exact .inr (.inr ⟨rfl, Lexer.isBlank_of_scan nothing lexed⟩)
      · exact .inr (.inl blames)

namespace Compiled

/-- A source that does not compile is reported with one label, under a piece of the
source that is not empty. Either it is the text that means nothing, or it is marked by the
tokens to blame, each of which has its span to itself. The only reports without a
label are about the names, and about sources that are empty or all white space. -/
theorem compile_blames {source : String} {declaration : Declaration} {registry : Registry}
    {fault : Fault} (failed : compile source declaration registry = .error fault) :
    let tokens := (lex ⟨declaration.toNames, registry⟩ source.toList).tokens
    (∀ t ∈ tokens, Lexer.Sole tokens t) ∧
      ((∃ label piece, fault.labels = [label] ∧ fault.span? = some label.span ∧
          piece ≠ [] ∧ label.span.Cuts source.toList piece ∧
          (fault = .undefinedSymbol (some (String.ofList piece, label.span)) ∨
            Blames tokens fault)) ∨
        (fault.labels = [] ∧ ((∃ name, fault = .badName name) ∨
          (∃ name, fault = .duplicateName name) ∨ fault = .emptyExpression ∨
          (fault = .undefinedSymbol none ∧ source.toList ≠ [] ∧
            ∀ c ∈ source.toList, Text.isBlank c = true)))) := by
  intro tokens
  have laid : Lexer.Laid source.toList 0 tokens := Lexer.laid_lex _ _
  refine ⟨fun t member => laid.sole member, ?_⟩
  rcases compile_eq_error failed with invalid | ⟨-, rfl⟩ | ⟨some_, unbuilt⟩
  · rcases Variables.validate_eq_error invalid with ⟨name, rfl⟩ | ⟨name, rfl⟩
    · exact .inr ⟨rfl, .inl ⟨name, rfl⟩⟩
    · exact .inr ⟨rfl, .inr (.inl ⟨name, rfl⟩)⟩
  · exact .inr ⟨rfl, .inr (.inr (.inl rfl))⟩
  · rcases blames_treeOf unbuilt with ⟨piece, span, someOf, cuts, rfl⟩ | blames | ⟨rfl, blank⟩
    · have points : (Fault.undefinedSymbol (some (String.ofList piece, span))).span? =
          some span := rfl
      obtain ⟨label, labels, rfl⟩ := exists_label points cuts
      exact .inl ⟨label, piece, labels, rfl, someOf, cuts, .inl rfl⟩
    · obtain ⟨span, piece, points, someOf, cuts⟩ := cuts_of_blames laid blames
      obtain ⟨label, labels, rfl⟩ := exists_label points cuts
      exact .inl ⟨label, piece, labels, points, someOf, cuts, .inr blames⟩
    · exact .inr ⟨rfl, .inr (.inr (.inr ⟨rfl, some_, blank⟩))⟩

/-- A sum that stands after a number without an operator is marked from its first to
its last token, in bytes: the blank after the number has three. -/
theorem compile_blames_sum :
    let source := "1\u3000(2 + 3)"
    let fault : Fault := .constantsExcess ⟨5, 10⟩
    compile source (.names []) .standard = .error fault ∧
      Blames (lex ⟨[], .standard⟩ source.toList).tokens fault ∧
      ∃ piece, Span.Cuts ⟨5, 10⟩ source.toList piece ∧ String.ofList piece = "2 + 3" := by
  intro source fault
  have failed : compile source (.names []) .standard = .error fault := by
    have outcome : (compile source (.names []) .standard).map Compiled.names = .error fault := by
      decide +kernel
    cases compiled : compile source (.names []) .standard <;> simp_all [Except.map]
  obtain ⟨-, ⟨label, piece, labels, points, -, cuts, names | blames⟩ | ⟨none_, -⟩⟩ :=
    compile_blames failed
  · simp [fault] at names
  · have place : label.span = ⟨5, 10⟩ := (Option.some.inj points).symm
    rw [place] at cuts
    have cut : Text.slice source.toList ⟨5, 10⟩ = "2 + 3".toList := by decide +kernel
    refine ⟨failed, blames, piece, cuts, ?_⟩
    rw [← cuts.slice, cut, String.ofList_toList]
  · cases none_

end Compiled

end Formula
