/-
# Formula.Postfix — operands first, then what is done to them

Infix tokens are rearranged so that every operator and routine stands right
after its operands, which makes parentheses and precedences superfluous. Tokens
are handled one at a time. Operands are emitted at once; operators, routines and
open parentheses wait on a stack until it is known what they apply to.

Beside the stack runs a list of the open groups. A group that a routine opens
counts its arguments, and remembers the first token of the first argument too
many, so that the count can be compared with the arity when the group closes.
-/
import Formula.Fault
import Formula.Token

namespace Formula

set_option autoImplicit false

/-- The call whose arguments stand in an open group. -/
structure OpenCall where
  routine : Routine
  span : Span
  /-- The arguments begun so far. -/
  arguments : Nat
  /-- Where the first argument past the arity starts. -/
  excess : Option Span

/-- An open parenthesis: plain, or opening the arguments of a call. -/
abbrev Group := Option OpenCall

/-- A conversion under way; the newest entry of each list comes first. -/
structure Conversion where
  waiting : List Token
  groups : List Group
  emitted : List Token

namespace OpenCall

/-- One more argument begins, at the given place. -/
def nextArgument (call : OpenCall) (place : Span) : OpenCall :=
  { call with
    arguments := call.arguments + 1
    excess := if call.routine.arity < call.arguments + 1 ∧ call.excess = none then some place
      else call.excess }

/-- The fault of a call that closes with too few or too many arguments. -/
def fault? (call : OpenCall) : Option Fault :=
  if call.arguments < call.routine.arity then
    some (.missingArguments call.routine.name call.routine.arity call.arguments call.span)
  else call.excess.map .constantsExcess

end OpenCall

namespace Conversion

/-- Nothing read yet. -/
def start : Conversion := ⟨[], [], []⟩

/-- Whether an operator lets a waiting one go first: always one that binds more
tightly, and one of the same precedence if it groups to the left itself. -/
def yieldsTo (current waiting : Operator) : Bool :=
  if current.isLeftAssociative then current.precedence ≤ waiting.precedence
  else current.precedence < waiting.precedence

/-- Split off what waits above the innermost open parenthesis: those tokens,
top first, and the stack from the parenthesis on; none if no parenthesis is
open. -/
def aboveOpening : List Token → Option (List Token × List Token)
  | [] => none
  | top :: below =>
    if top.category = .opening then some ([], top :: below)
    else (aboveOpening below).map fun (above, rest) => (top :: above, rest)

/-- Split off what goes before an operator: operators it yields to, up to and
including the first routine, and nothing below an open parenthesis. -/
def aheadOf (current : Operator) : List Token → List Token × List Token
  | [] => ([], [])
  | top :: below =>
    match top.meaning with
    | .routine _ => ([top], below)
    | .operator waiting =>
      if yieldsTo current waiting then
        let (ahead, rest) := aheadOf current below
        (top :: ahead, rest)
      else ([], top :: below)
    | _ => ([], top :: below)

/-- Emit tokens, the first one first. -/
def emit (c : Conversion) (tokens : List Token) : Conversion :=
  { c with emitted := tokens.reverse ++ c.emitted }

/-- The group a parenthesis opens, given what waits below it. -/
def groupAbove : List Token → Group
  | ⟨.routine r, span⟩ :: _ => some ⟨r, span, 1, none⟩
  | _ => none

/-- A separator ends an argument. -/
def separate (c : Conversion) (token : Token) (next : Option Token) : Except Fault Conversion :=
  match aboveOpening c.waiting with
  | none => .error (.parenthesisMismatch token.span)
  | some (above, rest) =>
    let groups :=
      match c.groups with
      | some call :: outer =>
        some (call.nextArgument ((next.map Token.span).getD token.span)) :: outer
      | groups => groups
    .ok { c.emit above with waiting := rest, groups }

/-- A closing parenthesis ends the innermost group and the call it belongs to. -/
def close (c : Conversion) (token : Token) : Except Fault Conversion :=
  match aboveOpening c.waiting, c.groups with
  | some (above, _ :: below), group :: groups =>
    let closed := { c.emit above with waiting := below, groups }
    match group with
    | none => .ok closed
    | some call =>
      match call.fault?, below with
      | some fault, _ => .error fault
      | none, callee :: rest => .ok { closed.emit [callee] with waiting := rest }
      | none, [] => .ok closed
  | _, _ => .error (.parenthesisMismatch token.span)

/-- Handle one token, knowing the one after it. -/
def step (c : Conversion) (token : Token) (next : Option Token) : Except Fault Conversion :=
  match token.meaning with
  | .constant _ => .ok (c.emit [token])
  | .slot _ => .ok (c.emit [token])
  | .routine _ => .ok { c with waiting := token :: c.waiting }
  | .operator o =>
    let (ahead, rest) := aheadOf o c.waiting
    .ok { c.emit ahead with waiting := token :: rest }
  | .opening =>
    .ok { c with waiting := token :: c.waiting, groups := groupAbove c.waiting :: c.groups }
  | .separator => c.separate token next
  | .closing => c.close token

/-- Handle tokens from left to right. -/
def run (c : Conversion) : List Token → Except Fault Conversion
  | [] => .ok c
  | token :: rest =>
    match c.step token rest.head? with
    | .error fault => .error fault
    | .ok c => c.run rest

/-- Emit what still waits; an open parenthesis has no partner. -/
def finish (c : Conversion) : Except Fault (List Token) :=
  match c.waiting.find? (·.category = .opening) with
  | some opening => .error (.parenthesisMismatch opening.span)
  | none => .ok (c.emit c.waiting).emitted.reverse

end Conversion

/-- Infix tokens in postfix order. -/
def toPostfix (tokens : List Token) : Except Fault (List Token) :=
  match Conversion.start.run tokens with
  | .error fault => .error fault
  | .ok c => c.finish

end Formula
