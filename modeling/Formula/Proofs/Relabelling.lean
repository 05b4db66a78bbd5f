/-
# Formula.Proofs.Relabelling — other slots and other places

Once a source is in tokens, nothing looks at the number of a slot, and spans are only
handed on or joined to the hull of two. So the stages from tokens to trees commute with
every change of slots and spans that respects hulls: the check of the order
(`check_map`), the conversion to postfix order (`toPostfix_map`) and the assembly
(`ofPostfix_map`). The tree of changed tokens is the changed tree, and where there is
none, the same fault is found at the changed place (`treeOfTokens_map`).
-/
import Formula.Compiled
import Formula.Postfix
import Formula.Proofs.Grammar.Order

namespace Formula

set_option autoImplicit false

/-- New slots for variables and new spans for tokens, in which a hull becomes the hull. -/
structure Relabelling where
  slot : Nat → Nat
  span : Span → Span
  hull : ∀ s t : Span, span (s.hull t) = (span s).hull (span t)

namespace Relabelling

variable (f : Relabelling)

/-! ## What is changed -/

def meaning : Meaning → Meaning
  | .slot index => .slot (f.slot index)
  | other => other

def token (t : Token) : Token := ⟨f.meaning t.meaning, f.span t.span⟩

/-- The same fault at its new place. -/
def fault : Fault → Fault
  | .undefinedSymbol found => .undefinedSymbol (found.map fun (text, span) => (text, f.span span))
  | .misplaced reason span => .misplaced reason (f.span span)
  | .parenthesisMismatch span => .parenthesisMismatch (f.span span)
  | .missingArguments callee expected found span =>
      .missingArguments callee expected found (f.span span)
  | .constantsExcess span => .constantsExcess (f.span span)
  | .tooDeep limit span => .tooDeep limit (f.span span)
  | other => other

mutual

def tree : Tree → Tree
  | .constant value => .constant value
  | .slot index => .slot (f.slot index)
  | .apply o lhs rhs => .apply o (tree lhs) (tree rhs)
  | .call r arguments => .call r (trees arguments)

def trees : List Tree → List Tree
  | [] => []
  | t :: ts => tree t :: trees ts

end

/-- The changed fault, or the changed result. -/
def outcome {α β : Type} (change : α → β) : Except Fault α → Except Fault β
  | .error fault => .error (f.fault fault)
  | .ok a => .ok (change a)

@[simp] theorem category_token (t : Token) : (f.token t).category = t.category := by
  obtain ⟨meaning, span⟩ := t
  cases meaning <;> rfl

@[simp] theorem span_token (t : Token) : (f.token t).span = f.span t.span := rfl

theorem trees_eq_map (ts : List Tree) : f.trees ts = ts.map f.tree := by
  induction ts with
  | nil => rfl
  | cons t ts ih => rw [trees, ih, List.map_cons]

mutual

/-- A tree stays the same where slots do. -/
theorem tree_of_fixed (fixed : ∀ index, f.slot index = index) : ∀ t : Tree, f.tree t = t
  | .constant _ => rfl
  | .slot index => by rw [tree, fixed]
  | .apply _ lhs rhs => by rw [tree, tree_of_fixed fixed lhs, tree_of_fixed fixed rhs]
  | .call _ arguments => by rw [tree, trees_of_fixed fixed arguments]

theorem trees_of_fixed (fixed : ∀ index, f.slot index = index) : ∀ ts : List Tree, f.trees ts = ts
  | [] => rfl
  | t :: ts => by rw [trees, tree_of_fixed fixed t, trees_of_fixed fixed ts]

end

/-- A new place does not make another kind of fault. -/
theorem code_fault (fault : Fault) : (f.fault fault).code = fault.code := by
  cases fault <;> rfl

/-! ## The order of tokens -/

theorem firstClash?_map (tokens : List Token) :
    Infix.firstClash? (tokens.map f.token) = (Infix.firstClash? tokens).map f.fault := by
  induction tokens with
  | nil => rfl
  | cons first rest ih =>
      cases rest with
      | nil => rfl
      | cons second rest =>
          simp only [List.map_cons, Infix.firstClash?, category_token]
          cases first.category.clash? second.category with
          | some reason => rfl
          | none => exact ih

theorem fault?_map (tokens : List Token) :
    Infix.fault? (tokens.map f.token) = (Infix.fault? tokens).map f.fault := by
  cases tokens with
  | nil => rfl
  | cons first rest =>
      have some_ : (first :: rest).map f.token ≠ [] := List.cons_ne_nil _ _
      have last : (f.token first :: rest.map f.token).getLast some_ =
          f.token ((first :: rest).getLast (List.cons_ne_nil first rest)) :=
        List.getLast_map some_
      have clash := f.firstClash?_map (first :: rest)
      rw [List.map_cons] at clash
      simp only [List.map_cons, Infix.fault?, last, clash, category_token, span_token,
        List.isEmpty_map]
      split
      · rfl
      split
      · rfl
      cases Infix.firstClash? (first :: rest) with
      | some fault => rfl
      | none =>
          dsimp only [Option.map_none]
          split <;> rfl

theorem check_map (tokens : List Token) :
    Infix.check (tokens.map f.token) = f.outcome (List.map f.token) (Infix.check tokens) := by
  rw [Infix.check, Infix.check, fault?_map]
  cases Infix.fault? tokens <;> rfl

/-! ## Postfix order -/

def openCall (call : OpenCall) : OpenCall :=
  { call with span := f.span call.span, excess := call.excess.map f.span }

def conversion (c : Conversion) : Conversion where
  waiting := c.waiting.map f.token
  groups := c.groups.map (Option.map f.openCall)
  emitted := c.emitted.map f.token

theorem nextArgument_openCall (call : OpenCall) (place : Span) :
    (f.openCall call).nextArgument (f.span place) = f.openCall (call.nextArgument place) := by
  simp only [OpenCall.nextArgument, openCall, Option.map_eq_none_iff]
  split <;> rfl

theorem fault?_openCall (call : OpenCall) :
    (f.openCall call).fault? = call.fault?.map f.fault := by
  by_cases few : call.arguments < call.routine.arity
  · simp only [OpenCall.fault?, openCall, few, if_true, Option.map_some, fault]
  · simp only [OpenCall.fault?, openCall, few, if_false, Option.map_map]
    rfl

theorem aboveOpening_map (waiting : List Token) :
    Conversion.aboveOpening (waiting.map f.token) =
      (Conversion.aboveOpening waiting).map fun (above, rest) =>
        (above.map f.token, rest.map f.token) := by
  induction waiting with
  | nil => rfl
  | cons top below ih =>
      simp only [List.map_cons, Conversion.aboveOpening, category_token]
      split
      · rfl
      · rw [ih]
        cases Conversion.aboveOpening below <;> rfl

theorem aheadOf_map (o : Operator) (waiting : List Token) :
    Conversion.aheadOf o (waiting.map f.token) =
      ((Conversion.aheadOf o waiting).1.map f.token,
        (Conversion.aheadOf o waiting).2.map f.token) := by
  induction waiting with
  | nil => rfl
  | cons top below ih =>
      obtain ⟨meaning, span⟩ := top
      cases meaning with
      | operator p =>
          simp only [List.map_cons, Conversion.aheadOf, token, Relabelling.meaning]
          split
          · simp only [ih, List.map_cons, token, Relabelling.meaning]
          · rfl
      | _ => rfl

theorem groupAbove_map (waiting : List Token) :
    Conversion.groupAbove (waiting.map f.token) =
      (Conversion.groupAbove waiting).map f.openCall := by
  cases waiting with
  | nil => rfl
  | cons top below =>
      obtain ⟨meaning, span⟩ := top
      cases meaning <;> rfl

theorem separate_conversion (c : Conversion) (t : Token) (next : Option Token) :
    (f.conversion c).separate (f.token t) (next.map f.token) =
      f.outcome f.conversion (c.separate t next) := by
  have place : ((next.map f.token).map Token.span).getD (f.token t).span =
      f.span ((next.map Token.span).getD t.span) := by
    cases next <;> rfl
  simp only [Conversion.separate, place]
  rw [show (f.conversion c).waiting = c.waiting.map f.token from rfl, aboveOpening_map]
  cases Conversion.aboveOpening c.waiting with
  | none => rfl
  | some parts =>
      obtain ⟨above, rest⟩ := parts
      obtain ⟨waiting, groups, emitted⟩ := c
      cases groups with
      | nil => simp [conversion, outcome, Conversion.emit]
      | cons group outer =>
          cases group <;> simp [conversion, outcome, Conversion.emit, nextArgument_openCall]

theorem close_conversion (c : Conversion) (t : Token) :
    (f.conversion c).close (f.token t) = f.outcome f.conversion (c.close t) := by
  obtain ⟨waiting, groups, emitted⟩ := c
  simp only [Conversion.close, conversion, aboveOpening_map]
  cases Conversion.aboveOpening waiting with
  | none => rfl
  | some parts =>
      obtain ⟨above, rest⟩ := parts
      cases rest with
      | nil => rfl
      | cons opening below =>
          cases groups with
          | nil => rfl
          | cons group outer =>
              cases group with
              | none => simp [conversion, outcome, Conversion.emit]
              | some call =>
                  have fault := f.fault?_openCall call
                  cases found : call.fault? with
                  | some reason =>
                      rw [found, Option.map_some] at fault
                      simp [fault, found, outcome]
                  | none =>
                      rw [found, Option.map_none] at fault
                      cases below <;> simp [fault, found, conversion, outcome, Conversion.emit]

/-- A step on changed tokens is the changed step. -/
theorem step_conversion (c : Conversion) (t : Token) (next : Option Token) :
    (f.conversion c).step (f.token t) (next.map f.token) =
      f.outcome f.conversion (c.step t next) := by
  obtain ⟨meaning, span⟩ := t
  cases meaning with
  | operator o =>
      have ahead := f.aheadOf_map o c.waiting
      simp [Conversion.step, token, Relabelling.meaning, conversion, ahead, outcome,
        Conversion.emit]
  | opening =>
      have group := f.groupAbove_map c.waiting
      simp [Conversion.step, token, Relabelling.meaning, conversion, group, outcome]
  | separator => exact f.separate_conversion c ⟨.separator, span⟩ next
  | closing => exact f.close_conversion c ⟨.closing, span⟩
  | _ => rfl

theorem run_conversion (c : Conversion) (tokens : List Token) :
    (f.conversion c).run (tokens.map f.token) = f.outcome f.conversion (c.run tokens) := by
  induction tokens generalizing c with
  | nil => rfl
  | cons t rest ih =>
      rw [List.map_cons, Conversion.run, Conversion.run, List.head?_map, step_conversion]
      cases c.step t rest.head? with
      | error fault => rfl
      | ok next => exact ih next

theorem finish_conversion (c : Conversion) :
    (f.conversion c).finish = f.outcome (List.map f.token) c.finish := by
  have found : (f.conversion c).waiting.find? (·.category = .opening) =
      (c.waiting.find? (·.category = .opening)).map f.token := by
    simp only [conversion, List.find?_map, Function.comp_def, category_token]
  rw [Conversion.finish, Conversion.finish, found]
  cases c.waiting.find? (·.category = .opening) with
  | some opening => rfl
  | none => simp [outcome, conversion, Conversion.emit]

theorem toPostfix_map (tokens : List Token) :
    toPostfix (tokens.map f.token) = f.outcome (List.map f.token) (toPostfix tokens) := by
  have ran := f.run_conversion Conversion.start tokens
  rw [show f.conversion Conversion.start = Conversion.start from rfl] at ran
  rw [toPostfix, toPostfix, ran]
  cases Conversion.start.run tokens with
  | error fault => rfl
  | ok c => exact f.finish_conversion c

/-! ## The tree -/

def operand (a : Operand) : Operand := ⟨f.tree a.tree, f.span a.span, a.height⟩

theorem apply_operand (o : Operator) (span : Span) (lhs rhs : Operand) :
    Operand.apply o (f.span span) (f.operand lhs) (f.operand rhs) =
      f.operand (Operand.apply o span lhs rhs) := by
  simp only [Operand.apply, operand, tree, f.hull]

theorem call_operand (r : Routine) (span : Span) (arguments : List Operand) :
    Operand.call r (f.span span) (arguments.map f.operand) =
      f.operand (Operand.call r span arguments) := by
  have spans : ∀ span, (arguments.map f.operand).foldl (fun hull a => hull.hull a.span)
      (f.span span) = f.span (arguments.foldl (fun hull a => hull.hull a.span) span) := by
    induction arguments with
    | nil => exact fun _ => rfl
    | cons a arguments ih =>
        intro span
        simp only [List.map_cons, List.foldl_cons]
        rw [← ih, f.hull]
        rfl
  have heights : ∀ height, (arguments.map f.operand).foldl (fun h a => max h (a.height + 1))
      height = arguments.foldl (fun h a => max h (a.height + 1)) height := by
    intro height
    rw [List.foldl_map]
    rfl
  simp only [Operand.call, spans, heights, operand, tree, trees_eq_map, List.map_map,
    Function.comp_def]

theorem push_map (stack : List Operand) (span : Span) (a : Operand) :
    Assembly.push (stack.map f.operand) (f.span span) (f.operand a) =
      f.outcome (List.map f.operand) (Assembly.push stack span a) := by
  rw [Assembly.push, Assembly.push, show (f.operand a).height = a.height from rfl]
  split <;> rfl

/-- Handling a changed token on changed operands is the changed step. -/
theorem step_map (stack : List Operand) (t : Token) :
    Assembly.step (stack.map f.operand) (f.token t) =
      f.outcome (List.map f.operand) (Assembly.step stack t) := by
  obtain ⟨meaning, span⟩ := t
  cases meaning with
  | constant value => exact f.push_map stack span (.leaf (.constant value) span)
  | slot index => exact f.push_map stack span (.leaf (.slot index) span)
  | operator o =>
      match stack with
      | [] => rfl
      | [_] => rfl
      | rhs :: lhs :: below =>
          simp only [Assembly.step, token, Relabelling.meaning, List.map_cons, apply_operand,
            push_map]
  | routine r =>
      simp only [Assembly.step, token, Relabelling.meaning, List.length_map]
      split
      · rfl
      · rw [← List.map_drop, ← List.map_take, ← List.map_reverse, call_operand, push_map]
  | opening => rfl
  | closing => rfl
  | separator => rfl

theorem run_map (stack : List Operand) (tokens : List Token) :
    Assembly.run (stack.map f.operand) (tokens.map f.token) =
      f.outcome (List.map f.operand) (Assembly.run stack tokens) := by
  induction tokens generalizing stack with
  | nil => rfl
  | cons t rest ih =>
      rw [List.map_cons, Assembly.run, Assembly.run, step_map]
      cases Assembly.step stack t with
      | error fault => rfl
      | ok next => exact ih next

theorem finish_map (stack : List Operand) :
    Assembly.finish (stack.map f.operand) = f.outcome f.tree (Assembly.finish stack) := by
  rw [Assembly.finish, Assembly.finish, ← List.map_reverse]
  match stack.reverse with
  | [] => rfl
  | [_] => rfl
  | _ :: _ :: _ => rfl

theorem ofPostfix_map (tokens : List Token) :
    Tree.ofPostfix (tokens.map f.token) = f.outcome f.tree (Tree.ofPostfix tokens) := by
  have ran := f.run_map [] tokens
  rw [List.map_nil] at ran
  rw [Tree.ofPostfix, Tree.ofPostfix, ran]
  cases Assembly.run [] tokens with
  | error fault => rfl
  | ok stack => exact f.finish_map stack

/-- Changed tokens give the changed tree, or the same fault at its new place. -/
theorem treeOfTokens_map (tokens : List Token) :
    treeOfTokens (tokens.map f.token) = f.outcome f.tree (treeOfTokens tokens) := by
  simp only [treeOfTokens, bind, Except.bind, check_map]
  cases Infix.check tokens with
  | error fault => rfl
  | ok checked =>
      simp only [outcome, toPostfix_map]
      cases toPostfix checked with
      | error fault => rfl
      | ok out => exact f.ofPostfix_map out

end Relabelling

end Formula
