/-
# Formula.Lexer — from text to tokens

The lexer looks for the first token the registry's pattern finds. White space
before it is skipped; any other text before it is an undefined symbol, reported
from its first to its last character that is not white space.

A minus belongs to the number after it, except right after an operand, where it
is the operator `-` and the number goes without it.

A name is a variable if one is declared so, else a routine, else a constant.
-/
import Formula.Registry
import Formula.Token

namespace Formula

set_option autoImplicit false

/-- What names and symbols refer to: the declared variables, by slot, and the
definitions of a registry. -/
structure Scope where
  names : List String
  registry : Registry

/-- The tokens up to the first fault, and that fault if there is one. -/
structure Lexed where
  tokens : List Token
  fault : Option Fault

namespace Lexer

/-- The fault of a piece of text that means nothing. -/
def undefined (text : List Char) (start : Nat) : Fault :=
  .undefinedSymbol (some (String.ofList text, ⟨start, start + Text.byteLength text⟩))

/-- A text without the white space at its end. -/
def trimEnd (cs : List Char) : List Char := (cs.reverse.dropWhile Text.isBlank).reverse

/-- The fault of text that was skipped, if it is not all white space. -/
def stray? (skipped : List Char) (offset : Nat) : Option Fault :=
  match skipped.dropWhile Text.isBlank with
  | [] => none
  | found => some (undefined (trimEnd found)
      (offset + Text.byteLength (skipped.takeWhile Text.isBlank)))

/-- The value of a number's text. -/
def literal (text : List Char) : Float := (Number.read? text).getD notANumber

/-- Whether a minus after a token of this category subtracts. -/
def endsOperand : Option Category → Bool
  | some .constant => true
  | some .closing => true
  | _ => false

/-- The meaning of a name. -/
def resolve? (scope : Scope) (name : String) : Option Meaning :=
  match scope.names.findIdx? (· == name) with
  | some index => some (.slot index)
  | none =>
    match scope.registry.routine? name with
    | some r => some (.routine r)
    | none => (scope.registry.constant? name).map .constant

/-- The meaning of a mark. -/
def mark? (scope : Scope) : List Char → Option Meaning
  | ['('] => some .opening
  | [')'] => some .closing
  | [','] => some .separator
  | symbol => (scope.registry.operator? (String.ofList symbol)).map .operator

/-- The token with one meaning for a whole piece of text. -/
def whole (text : List Char) (start : Nat) : Option Meaning → Except Fault (List Token)
  | some meaning => .ok [⟨meaning, ⟨start, start + Text.byteLength text⟩⟩]
  | none => .error (undefined text start)

/-- The tokens of a number: one, or a subtraction and an unsigned number. -/
def number (scope : Scope) (previous : Option Category) (text : List Char) (start : Nat) :
    Except Fault (List Token) :=
  match text, endsOperand previous with
  | '-' :: digits, true =>
    match scope.registry.operator? "-" with
    | none => .error (undefined ['-'] start)
    | some minus =>
      .ok [⟨.operator minus, ⟨start, start + 1⟩⟩,
        ⟨.constant (literal digits), ⟨start + 1, start + Text.byteLength text⟩⟩]
  | _, _ => whole text start (some (.constant (literal text)))

/-- The tokens of what the pattern found. -/
def read (scope : Scope) (previous : Option Category) (hit : Hit) (start : Nat) :
    Except Fault (List Token) :=
  match hit.shape with
  | .number => number scope previous hit.lexeme start
  | .word => whole hit.lexeme start (resolve? scope (String.ofList hit.lexeme))
  | .mark => whole hit.lexeme start (mark? scope hit.lexeme)

/-- Read tokens from the text that starts at a byte offset, after a token of
the given category. -/
def scan (scope : Scope) (pattern : Pattern) (cs : List Char) (offset : Nat)
    (previous : Option Category) : Lexed :=
  match _found : pattern.search cs with
  | none => ⟨[], stray? cs offset⟩
  | some hit =>
    match stray? hit.skipped offset with
    | some fault => ⟨[], some fault⟩
    | none =>
      let start := offset + Text.byteLength hit.skipped
      match read scope previous hit start with
      | .error fault => ⟨[], some fault⟩
      | .ok tokens =>
        let later := scan scope pattern hit.rest (start + Text.byteLength hit.lexeme)
          (tokens.getLast?.map Token.category)
        ⟨tokens ++ later.tokens, later.fault⟩
termination_by cs.length
decreasing_by exact Pattern.search_shrinks _found

end Lexer

/-- All tokens of a source up to the first fault. -/
def lex (scope : Scope) (source : List Char) : Lexed :=
  Lexer.scan scope scope.registry.pattern source 0 none

/-- The tokens of a source, or its first fault. -/
def tokenize (scope : Scope) (source : List Char) : Except Fault (List Token) :=
  let lexed := lex scope source
  match lexed.fault with
  | some fault => .error fault
  | none => .ok lexed.tokens

end Formula
