/-
# Formula.Fault — what can be wrong with a formula

Every reason to refuse a formula, its variables, a definition or an evaluation
is a constructor of `Fault`. The texts of a report are functions of it: a
message, a code, sometimes a help text, and a label under the place in the
source that is to blame, if there is one.
-/
import Formula.Span

namespace Formula

set_option autoImplicit false

/-- Why a token cannot stand where it does. -/
inductive Misplacement where
  /-- A lone token that is no operand. -/
  | lone
  /-- A token no expression starts with. -/
  | start
  /-- An operand is due and something else stands there. -/
  | operandDue
  /-- A routine's name has no parenthesis after it. -/
  | parenthesisDue
  /-- A token no expression ends with. -/
  | finish
deriving DecidableEq, Repr

def Misplacement.text : Misplacement → String
  | .lone => "expected a number or variable"
  | .start => "expression cannot start here"
  | .operandDue => "expected an operand"
  | .parenthesisDue => "expected '('"
  | .finish => "expression cannot end here"

/-- Why a formula is refused. -/
inductive Fault where
  /-- There is no text at all. -/
  | emptyExpression
  /-- A name or symbol has characters it may not have. -/
  | badName (name : String)
  /-- A variable is declared twice. -/
  | duplicateName (name : String)
  /-- A piece of text means nothing here, or nothing but white space was found. -/
  | undefinedSymbol (found : Option (String × Span))
  /-- A token is out of place. -/
  | misplaced (reason : Misplacement) (span : Span)
  /-- A parenthesis or separator has no partner. -/
  | parenthesisMismatch (span : Span)
  /-- An operator or routine has fewer operands than it takes. -/
  | missingArguments (callee : String) (expected found : Nat) (span : Span)
  /-- A value is left over. -/
  | constantsExcess (span : Span)
  /-- The tree has more than `limit` levels. -/
  | tooDeep (limit : Nat) (span : Span)
  /-- The values do not match the variables in number. -/
  | valueCount (expected found : Nat)
deriving DecidableEq, Repr

/-- A remark on a place in the source. -/
structure Label where
  start : Nat
  length : Nat
  text : String
deriving DecidableEq, Repr

namespace Fault

def message : Fault → String
  | .emptyExpression => "empty expression"
  | .badName name => "bad name '" ++ name ++ "'"
  | .duplicateName name => "duplicate variable name '" ++ name ++ "'"
  | .undefinedSymbol none => "undefined symbol"
  | .undefinedSymbol (some (text, _)) => "undefined symbol '" ++ text ++ "'"
  | .misplaced _ _ => "syntax error"
  | .parenthesisMismatch _ => "parenthesis mismatch"
  | .missingArguments callee _ _ _ => "missing arguments for '" ++ callee ++ "'"
  | .constantsExcess _ => "too many constants"
  | .tooDeep _ _ => "expression nested too deeply"
  | .valueCount expected found =>
    "expected " ++ toString expected ++ " values, got " ++ toString found

/-- The code that names the kind of fault to other programs. -/
def code : Fault → String
  | .emptyExpression => "calculate::empty_expression"
  | .badName _ => "calculate::bad_name"
  | .duplicateName _ => "calculate::duplicate_name"
  | .undefinedSymbol _ => "calculate::undefined_symbol"
  | .misplaced _ _ => "calculate::syntax_error"
  | .parenthesisMismatch _ => "calculate::parenthesis_mismatch"
  | .missingArguments _ _ _ _ => "calculate::missing_arguments"
  | .constantsExcess _ => "calculate::constants_excess"
  | .tooDeep _ _ => "calculate::too_deep"
  | .valueCount _ _ => "calculate::evaluation_error"

/-- Advice, where there is any to give. -/
def help? : Fault → Option String
  | .badName _ => some "variable, function and constant names may only contain ASCII letters"
  | .constantsExcess _ => some "an operator or separator is probably missing"
  | .tooDeep limit _ =>
    some ("split the expression into smaller ones, at most " ++ toString limit ++ " levels deep")
  | _ => none

/-- The place in the source that is to blame. -/
def span? : Fault → Option Span
  | .undefinedSymbol found => found.map Prod.snd
  | .misplaced _ span => some span
  | .parenthesisMismatch span => some span
  | .missingArguments _ _ _ span => some span
  | .constantsExcess span => some span
  | .tooDeep _ span => some span
  | _ => none

/-- The remark that goes under that place. -/
def remark : Fault → String
  | .undefinedSymbol _ => "not recognized here"
  | .misplaced reason _ => reason.text
  | .parenthesisMismatch _ => "this has no matching parenthesis"
  | .missingArguments _ expected found _ =>
    "expected " ++ toString expected ++ " arguments, found " ++ toString found
  | .constantsExcess _ => "this value is never used"
  | .tooDeep _ _ => "this goes over the limit"
  | _ => ""

/-- The labels of a report: one for a fault with a place, else none. -/
def labels (f : Fault) : List Label :=
  f.span?.toList.map fun span => ⟨span.start, span.length, f.remark⟩

end Fault

end Formula
