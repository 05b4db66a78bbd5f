/-
# Formula.Tree.Assembly — trees from postfix tokens

Read in postfix order, every token is a leaf or takes the newest operands. The
stack of operands holds each subtree with the smallest span that covers its
tokens and with its height, which must not exceed `Tree.maxHeight`. In the end
one operand must be left.
-/
import Formula.Fault
import Formula.Token
import Formula.Tree

namespace Formula

set_option autoImplicit false

/-- The greatest height of a tree. A chain of additions gains a level with
every operator. -/
def Tree.maxHeight : Nat := 512

/-- A finished subtree, the hull of its tokens' spans, and its height. -/
structure Operand where
  tree : Tree
  span : Span
  height : Nat

namespace Operand

/-- A leaf. -/
def leaf (tree : Tree) (span : Span) : Operand := ⟨tree, span, 1⟩

/-- An operator, read at a span, over two operands. -/
def apply (o : Operator) (span : Span) (lhs rhs : Operand) : Operand where
  tree := .apply o lhs.tree rhs.tree
  span := (span.hull lhs.span).hull rhs.span
  height := max lhs.height rhs.height + 1

/-- A routine, read at a span, over its arguments. -/
def call (r : Routine) (span : Span) (arguments : List Operand) : Operand where
  tree := .call r (arguments.map Operand.tree)
  span := arguments.foldl (fun hull a => hull.hull a.span) span
  height := arguments.foldl (fun height a => max height (a.height + 1)) 1

end Operand

namespace Assembly

/-- Put an operand on the stack unless it is too high. -/
def push (stack : List Operand) (span : Span) (operand : Operand) :
    Except Fault (List Operand) :=
  if Tree.maxHeight < operand.height then .error (.tooDeep Tree.maxHeight span)
  else .ok (operand :: stack)

/-- Handle one token; the newest operand is the head of the stack. -/
def step (stack : List Operand) (token : Token) : Except Fault (List Operand) :=
  match token.meaning with
  | .constant value => push stack token.span (.leaf (.constant value) token.span)
  | .slot index => push stack token.span (.leaf (.slot index) token.span)
  | .routine r =>
    if stack.length < r.arity then
      .error (.missingArguments r.name r.arity stack.length token.span)
    else
      push (stack.drop r.arity) token.span (.call r token.span (stack.take r.arity).reverse)
  | .operator o =>
    match stack with
    | rhs :: lhs :: below => push below token.span (.apply o token.span lhs rhs)
    | few => .error (.missingArguments o.symbol 2 few.length token.span)
  | grouping =>
    .error (.undefinedSymbol (some (grouping.describe, token.span)))

/-- Handle tokens from left to right. -/
def run (stack : List Operand) : List Token → Except Fault (List Operand)
  | [] => .ok stack
  | token :: rest =>
    match step stack token with
    | .error fault => .error fault
    | .ok stack => run stack rest

/-- The only operand left. If there are more, the second one of the source is
too much. -/
def finish (stack : List Operand) : Except Fault Tree :=
  match stack.reverse with
  | [] => .error (.undefinedSymbol none)
  | [root] => .ok root.tree
  | _ :: second :: _ => .error (.constantsExcess second.span)

end Assembly

/-- The tree of some postfix tokens. -/
def Tree.ofPostfix (tokens : List Token) : Except Fault Tree :=
  match Assembly.run [] tokens with
  | .error fault => .error fault
  | .ok stack => Assembly.finish stack

end Formula
